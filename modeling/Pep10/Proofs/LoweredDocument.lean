import Pep10.Proofs.Faults
import Pep10.Proofs.History

/-!
# Lowered documents

The lines of a program are those of the document it comes from, in order.  Its symbols are the
names that the document mentions, by first mention, where a line mentions its operand before its
label.  Whatever lowering does to the table is a history of updates, so the names are read off that
history.
-/

namespace Pep10

/-! ### Mentions -/

/-- The name that an operand is. -/
def Operand.name? : Operand → Option String
  | .symbol name => some name
  | _ => none

/-- The name that a line mentions, be it as its operand or in an annotation. -/
def Operation.name? : Operation → Option String
  | .nonUnary _ o _ => o.name?
  | .align o => o.name?
  | .byte o => o.name?
  | .word o => o.name?
  | .block o => o.name?
  | .equate o => o.name?
  | .exported name => some name
  | .imported name => some name
  | .input name => some name
  | .output name => some name
  | .systemCall name => some name
  | .org o => o.name?
  | .burn o => o.name?
  | _ => none

/-- The names that a line mentions: that of its operand, and then its label. -/
def SourceLine.mentions (s : SourceLine) : List String :=
  s.operation.name?.toList ++ s.symbol?.toList

namespace Lowering

variable {α β : Type} {x : Lowering α} {k : α → Lowering β} {mentioned more defined : List String}

/-- What a computation does to its table is a history of updates, which mention and define the
given names. -/
def Performs (x : Lowering α) (mentioned defined : List String) : Prop :=
  ∀ t t' a, x.run t = .ok (a, t') →
    ∃ updates : List Update, t' = updates.foldl SymbolTable.update t
      ∧ updates.filterMap (·.name?) = mentioned ∧ updates.filterMap (·.defined?) = defined

theorem performs_pure (a : α) :
  Performs (pure a) [] []
  := by
  intro t t' a' hrun
  cases hrun
  exact ⟨[], rfl, rfl, rfl⟩

theorem performs_throw (e : DocumentError) :
  Performs (throw e : Lowering α) mentioned defined
  := by
  intro t t' a hrun
  cases hrun

theorem Performs.bind {defined' : List String} (hx : Performs x mentioned defined)
    (hk : ∀ a, Performs (k a) more defined') :
  Performs (x >>= k) (mentioned ++ more) (defined ++ defined')
  := by
  intro t t' b hrun
  obtain ⟨a, u, hxu, hku⟩ := run_bind_eq_ok_iff.mp hrun
  obtain ⟨updates, rfl, rfl, rfl⟩ := hx t u a hxu
  obtain ⟨updates', rfl, rfl, rfl⟩ := hk a _ t' b hku
  refine ⟨updates ++ updates', ?_, ?_, ?_⟩
  · rw [List.foldl_append]
  · rw [List.filterMap_append]
  · rw [List.filterMap_append]

theorem Performs.bind_nil (hx : Performs x mentioned defined) (hk : ∀ a, Performs (k a) [] []) :
  Performs (x >>= k) mentioned defined
  := by
  have h := hx.bind hk
  rw [List.append_nil, List.append_nil] at h
  apply h

theorem performs_reference (name : String) :
  Performs (reference name) [name] []
  := by
  intro t t' a hrun
  cases hrun
  exact ⟨[.reference name], rfl, rfl, rfl⟩

theorem performs_annotate (name : String) (binding : Binding) :
  Performs (annotate name binding) [name] []
  := by
  intro t t' a hrun
  cases hrun
  exact ⟨[.reference name, .setBinding (t.reference name).1 binding], rfl, rfl, rfl⟩

theorem performs_define (name : String) :
  Performs (define name) [name] [name]
  := by
  intro t t' a hrun
  cases hrun
  exact ⟨[.define name], rfl, rfl, rfl⟩

end Lowering

theorem Operand.performs_lower (number : Nat) (o : Operand) :
  Lowering.Performs (o.lower number) o.name?.toList []
  := by
  cases o with
  | character c =>
      rw [lower]
      split
      · apply Lowering.performs_pure
      · apply Lowering.performs_throw
  | symbol name => apply Lowering.performs_reference
  | _ => apply Lowering.performs_pure

/-- A line mentions its operand. -/
theorem Operation.performs_lower (number : Nat) (op : Operation) :
  Lowering.Performs (op.lower number) op.name?.toList []
  := by
  cases op with
  | unary m =>
      rw [lower]
      split
      · apply Lowering.performs_pure
      · apply Lowering.performs_throw
  | nonUnary m o mode =>
      rw [lower]
      split
      · apply Lowering.performs_throw
      · apply (o.performs_lower number).bind_nil fun a => Lowering.performs_pure _
  | align o =>
      apply (o.performs_lower number).bind_nil
      intro a
      split
      · apply Lowering.performs_pure
      · apply Lowering.performs_throw
  | block o =>
      apply (o.performs_lower number).bind_nil
      intro a
      split
      · apply Lowering.performs_pure
      · apply Lowering.performs_throw
  | opening name flags =>
      rw [lower]
      split
      · apply Lowering.performs_pure
      · apply Lowering.performs_throw
  | byte o => apply (o.performs_lower number).bind_nil fun a => Lowering.performs_pure _
  | word o => apply (o.performs_lower number).bind_nil fun a => Lowering.performs_pure _
  | equate o => apply (o.performs_lower number).bind_nil fun a => Lowering.performs_pure _
  | org o => apply (o.performs_lower number).bind_nil fun a => Lowering.performs_pure _
  | burn o => apply (o.performs_lower number).bind_nil fun a => Lowering.performs_pure _
  | exported name =>
      apply (Lowering.performs_annotate name .global).bind_nil fun a => Lowering.performs_pure _
  | imported name =>
      apply (Lowering.performs_annotate name .imported).bind_nil fun a => Lowering.performs_pure _
  | input name =>
      apply (Lowering.performs_reference name).bind_nil fun a => Lowering.performs_pure _
  | output name =>
      apply (Lowering.performs_reference name).bind_nil fun a => Lowering.performs_pure _
  | systemCall name =>
      apply (Lowering.performs_reference name).bind_nil fun a => Lowering.performs_pure _
  | _ => apply Lowering.performs_pure

/-- A line mentions its operand and then its label, which it defines. -/
theorem SourceLine.performs_lower (number : Nat) (s : SourceLine) :
  Lowering.Performs (s.lower number) s.mentions s.symbol?.toList
  := by
  apply (s.operation.performs_lower number).bind
  intro kind
  cases s.symbol? with
  | none => apply (Lowering.performs_pure none).bind_nil fun a => Lowering.performs_pure _
  | some name =>
      apply Lowering.Performs.bind_nil _ fun a => Lowering.performs_pure _
      apply (Lowering.performs_define name).bind_nil fun a => Lowering.performs_pure _

theorem performs_lowerLines (number : Nat) (lines : List SourceLine) :
  Lowering.Performs (lowerLines number lines) (lines.flatMap (·.mentions))
    (lines.flatMap (·.symbol?.toList))
  := by
  induction lines generalizing number with
  | nil => apply Lowering.performs_pure
  | cons s lines ih =>
      rw [lowerLines, List.flatMap_cons, List.flatMap_cons]
      apply (s.performs_lower number).bind
      intro l
      apply (ih (number + 1)).bind_nil fun a => Lowering.performs_pure _

/-- The table of a document comes from a history that mentions and defines its names. -/
theorem Document.tallies_of_lower {d : Document} {id : TableId} {u : ProgramUnit}
    (h : d.lower id = .ok u) :
  u.symbols.Tallies (d.lines.flatMap (·.mentions)) (d.lines.flatMap (·.symbol?.toList))
  := by
  obtain ⟨⟨program, symbols⟩, hrun, h⟩ := Except.bind_eq_ok_iff.mp h
  cases h
  obtain ⟨updates, rfl, hmentioned, hdefined⟩ := performs_lowerLines 1 d.lines _ _ _ hrun
  rw [← hmentioned, ← hdefined]
  apply SymbolTable.tallies_after

/-! ### The law of lowering -/

/-- The argument of a line of a program. -/
def LineKind.argument? : LineKind → Option Argument
  | .dyadic _ _ a => some a
  | .align a => some a
  | .data _ a => some a
  | .block a => some a
  | .equate a => some a
  | .annotate _ a => some a
  | .origin _ a => some a
  | _ => none

theorem Operation.argument?_kind (op : Operation) (t : SymbolTable) :
  (op.kind t).argument? = none
    ∨ ∃ o : Operand, (op.kind t).argument? = some (o.argument t) ∧ op.name? = o.name?
  := by
  cases op with
  | nonUnary m o mode => exact .inr ⟨o, rfl, rfl⟩
  | align o => exact .inr ⟨o, rfl, rfl⟩
  | ascii text => exact .inr ⟨.text text, rfl, rfl⟩
  | byte o => exact .inr ⟨o, rfl, rfl⟩
  | word o => exact .inr ⟨o, rfl, rfl⟩
  | block o => exact .inr ⟨o, rfl, rfl⟩
  | equate o => exact .inr ⟨o, rfl, rfl⟩
  | exported name => exact .inr ⟨.symbol name, rfl, rfl⟩
  | imported name => exact .inr ⟨.symbol name, rfl, rfl⟩
  | input name => exact .inr ⟨.symbol name, rfl, rfl⟩
  | output name => exact .inr ⟨.symbol name, rfl, rfl⟩
  | systemCall name => exact .inr ⟨.symbol name, rfl, rfl⟩
  | org o => exact .inr ⟨o, rfl, rfl⟩
  | burn o => exact .inr ⟨o, rfl, rfl⟩
  | _ => exact .inl rfl

/-- An argument that names a symbol comes from an operand or an annotation that does. -/
theorem Operation.name?_of_argument? {op : Operation} {t : SymbolTable} {name : String}
    {r : SymbolRef} (h : (op.kind t).argument? = some (.symbolic name r)) :
  op.name? = some name ∧ r = t.ref (t.position name)
  := by
  obtain hnone | ⟨o, ho, hname⟩ := op.argument?_kind t
  · rw [hnone] at h
    cases h
  · rw [ho] at h
    cases o with
    | symbol name' =>
        cases h
        exact ⟨hname, rfl⟩
    | _ => cases h

namespace Document

variable {d : Document} {id : TableId} {u : ProgramUnit}

theorem mem_names_of_mentions (h : d.lower id = .ok u) {s : SourceLine} (hs : s ∈ d.lines)
    {name : String} (hname : name ∈ s.mentions) :
  name ∈ u.symbols.names
  := by
  rw [(tallies_of_lower h).mem_names_iff, List.mem_flatMap]
  exact ⟨s, hs, hname⟩

theorem map_name?_line (h : d.lower id = .ok u) {s : SourceLine} (hs : s ∈ d.lines) :
  (s.line u.symbols).symbol?.map u.symbols.name? = s.symbol?.map some
  := by
  rw [SourceLine.line, Option.map_map]
  apply Option.map_congr
  intro name hname
  apply SymbolTable.name?_position
  apply mem_names_of_mentions h hs
  apply List.mem_append_right
  rw [Option.mem_toList]
  apply hname

/-- What a program and its symbols have from the document that they come from. -/
structure LowersTo (d : Document) (id : TableId) (u : ProgramUnit) : Prop where
  id_eq : u.symbols.id = id
  program_eq : u.program = d.lines.map (·.line u.symbols)
  names_eq : u.symbols.names = (d.lines.flatMap (·.mentions)).eraseDups
  state_eq : ∀ e ∈ u.symbols.entries,
    e.state = .ofCount (d.lines.countP (·.symbol? = some e.name))
  binding_eq : ∀ e ∈ u.symbols.entries, e.binding = d.binding e.name
  value_eq : ∀ e ∈ u.symbols.entries, e.value = .empty
  symbol_eq : ∀ (k : LineId) (s : SourceLine) (l : Line), d.lines[k]? = some s →
    u.program[k]? = some l →
    l.symbol?.map u.symbols.name? = s.symbol?.map some
  argument_eq : ∀ l ∈ u.program, ∀ name r, l.kind.argument? = some (.symbolic name r) →
    u.symbols.owns r ∧ u.symbols.name? r.entry = some name

theorem lowersTo_of_lower (h : d.lower id = .ok u) :
  d.LowersTo id u
  := by
  have htallies := tallies_of_lower h
  obtain ⟨hid, hrecords, -⟩ := lower_eq_ok h
  have hprogram := program_of_lower h
  refine {
    id_eq := hid
    program_eq := hprogram
    names_eq := htallies.names_eq
    state_eq := ?_
    binding_eq := (binds_of_lower h).binding_eq
    value_eq := hrecords.value_eq
    symbol_eq := ?_
    argument_eq := ?_ }
  · intro e he
    rw [hrecords.state_eq e he, List.count_filterMap]
    congr 1
    apply List.countP_congr
    intro s _
    rw [beq_iff_eq, decide_eq_true_eq]
  · intro k s l hs hl
    rw [hprogram, List.getElem?_map, hs] at hl
    cases hl
    apply map_name?_line h (List.mem_of_getElem? hs)
  · intro l hl name r hr
    rw [hprogram] at hl
    obtain ⟨s, hs, rfl⟩ := List.mem_map.mp hl
    obtain ⟨hname, rfl⟩ := Operation.name?_of_argument? hr
    constructor
    · rw [SymbolTable.owns, SymbolTable.ref, decide_eq_true_eq]
    · apply SymbolTable.name?_position
      apply mem_names_of_mentions h hs
      apply List.mem_append_left
      rw [Option.mem_toList]
      apply hname

/-- When a document is lowered, what is reported when it is not, and what comes out when it is. -/
structure LoweringLaw (d : Document) (id : TableId) : Prop where
  fails_iff : (∃ e, d.lower id = .error e) ↔ ∃ s ∈ d.lines, s.operation.Invalid
  error_iff : ∀ e, d.lower id = .error e
    ↔ ∃ before s after, d.lines = before ++ s :: after
      ∧ (∀ s' ∈ before, ¬ s'.operation.Invalid)
      ∧ s.operation.Fault (before.length + 1) e
  ok : ∀ u, d.lower id = .ok u → d.LowersTo id u

/-- The law of lowering holds of every document. -/
theorem loweringLaw (d : Document) (id : TableId) :
  d.LoweringLaw id
  where
  fails_iff := exists_lower_eq_error_iff
  error_iff _ := lower_eq_error_iff
  ok _ h := lowersTo_of_lower h

/-- The operand of a line is mentioned before its label. -/
example :
  (lower ⟨[{ symbol? := some "here", operation := .word (.symbol "there") }]⟩ 0).map
      (·.symbols.names)
    = .ok ["there", "here"]
  := rfl

end Document

end Pep10
