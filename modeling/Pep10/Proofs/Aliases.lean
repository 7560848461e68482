import Pep10.Proofs.Pointers
import Pep10.Proofs.StoredLines
import Pep10.Proofs.SymbolValues
import Pep10.Proofs.Translation

/-!
# Aliases

An `.EQUATE` of a symbol makes its own symbol an alias of that one.  Aliases may form chains, in
any order of their lines.  A chain that ends at a label or at a constant stands for it, provided
that it has no more than thirty-two aliases: then no operand that names its first symbol is left
for relocation.  The symbol of a longer chain has no value, and all its operands are.
-/

namespace Pep10

/-! ### Pointers inside a table -/

namespace SymbolTable

/-- A number of pointers inside a table that lead from one entry to another. -/
inductive Points (t : SymbolTable) : Nat → SymbolId → SymbolId → Prop
  | refl (i : SymbolId) : Points t 0 i i
  | step {n : Nat} {i j k : SymbolId} (hi : t.value? i = some (.internal j))
      (hj : Points t n j k) : Points t (n + 1) i k

variable {t : SymbolTable} {linked : List SymbolTable} {n hops : Nat} {i j : SymbolId}
  {value : SymbolValue} {v : UInt64}

theorem resolveWithin_of_number (h : t.value? i = some value) (hv : value.number? = some v) :
  resolveWithin linked hops t i = some v
  := by
  rw [SymbolValue.number?_eq_some_iff] at hv
  exact resolveWithin_eq_some_iff.mpr ⟨0, t, i, value, Nat.zero_le hops, .refl t i, h, hv⟩

theorem Points.toHops (h : t.Points n i j) :
  Hops linked n t i t j
  := by
  induction h with
  | refl i => apply Hops.refl
  | step hi _ ih => apply Hops.step (.internal hi) ih

/-- Pointers that lead to a number are followed if there are not too many of them. -/
theorem Points.resolve_eq (h : t.Points n i j) (hvalue : t.value? j = some value)
    (hv : value.number? = some v) :
  t.resolve i linked = if n ≤ maxHops then some v else none
  := by
  rw [resolve]
  split
  · next hle =>
    rw [SymbolValue.number?_eq_some_iff] at hv
    exact resolveWithin_eq_some_iff.mpr ⟨n, t, j, value, hle, h.toHops, hvalue, hv⟩
  · next hlt =>
    exact resolveWithin_eq_none_iff.mpr (.inr ⟨n, t, j, Nat.lt_of_not_le hlt, h.toHops⟩)

end SymbolTable

/-! ### What a line declares -/

/-- The value that a line gives to the symbol it declares, and the number that this value stands for
by itself.  A line with bytes gives their place, an `.ORG` its operand, and any other line without
bytes the next byte, or the address below it if the line is walked backward. -/
inductive Assembly.Gives (a : Assembly) (l : NumberedLine) : SymbolValue → Option UInt64 → Prop
  | constant {literal : Literal} {v : UInt64} (hkind : l.line.kind = .equate (.literal literal))
      (hv : (Argument.literal literal).constant 2 = .ok (some v)) :
      Gives a l (.constant { byteCount := 2, bits := v, mask := 0xFFFF }) (some v)
  | pointer {name : String} {r : SymbolRef} (hkind : l.line.kind = .equate (.symbolic name r)) :
      Gives a l (.internal r.entry) none
  | bytes {e : Address} (he : a.addresses.get? l.id = some e) :
      Gives a l (.location {
          address := e.address
          size := e.size
          addressWidth := 2
          offset := 0
          kind := if l.line.isInstruction then .code else .object })
        (some e.address.toUInt64)
  | idle {address : UInt16} (hkind : ∀ argument, l.line.kind ≠ .equate argument)
      (hnone : a.addresses.get? l.id = none)
      (horg : ∀ argument, l.origin? .org = some argument →
        argument.constant 2 = .ok (some address.toUInt64))
      (hnext : ∀ {before between m after e},
        sectionOrder a.sections = before ++ l :: (between ++ m :: after) →
        Idle a.addresses between → a.addresses.get? m.id = some e →
        address
          = if l ∈ walkedForward (sectionOrder a.sections) then e.address else e.address - 1) :
      Gives a l
        (.location { address, size := 0, addressWidth := 2, offset := 0, kind := .object })
        (some address.toUInt64)

namespace Assembly.Gives

variable {a : Assembly} {l : NumberedLine} {value : SymbolValue} {v? : Option UInt64}

/-- A constant of two bytes keeps all its digits. -/
theorem number?_eq (h : a.Gives l value v?) :
  value.number? = v?
  := by
  cases h with
  | @constant literal v _ hv =>
      rw [Argument.constant_literal_eq_ok_iff] at hv
      have hlt : v.toNat < 2 ^ 16 := Literal.toNat_value_lt (by decide) (by decide) hv
      have hmask : (0xFFFF : UInt64).toNat = 2 ^ 16 - 1 := rfl
      apply congrArg some
      apply UInt64.toNat_inj.mp
      rw [MaskedBits.value, UInt64.toNat_and, hmask, Nat.and_two_pow_sub_one_eq_mod,
        Nat.mod_eq_of_lt hlt]
  | pointer _ => rfl
  | bytes _ => simp [SymbolValue.number?]
  | idle _ _ _ _ => simp [SymbolValue.number?]

/-- A line that is no alias gives a number. -/
theorem exists_number (h : a.Gives l value v?)
    (hkind : ∀ name r, l.line.kind ≠ .equate (.symbolic name r)) :
  ∃ v, v? = some v
  := by
  cases h with
  | constant _ _ => exact ⟨_, rfl⟩
  | pointer hpointer => cases hkind _ _ hpointer
  | bytes _ => exact ⟨_, rfl⟩
  | idle _ _ _ _ => exact ⟨_, rfl⟩

end Assembly.Gives

namespace Document

variable {d : Document} {id : TableId} {u : ProgramUnit} {options : Options} {a : Assembly}
  {k : LineId} {s : SourceLine} {name : String}

/-- The value of an `.EQUATE` of a document. -/
theorem gives_of_equate {l : NumberedLine} {o : Operand}
    (hkind : l.line.kind = .equate (o.argument u.symbols)) {value : SymbolValue}
    (hvalue : equateValue u.symbols.id l.id (o.argument u.symbols) = .ok value) :
  ∃ v?, a.Gives l value v?
  := by
  cases harg : o.argument u.symbols with
  | literal literal =>
      rw [harg] at hkind hvalue
      obtain ⟨v, hv, rfl⟩ := equateValue_literal_eq_ok_iff.mp hvalue
      exact ⟨_, .constant hkind (Argument.constant_literal_eq_ok_iff.mpr hv)⟩
  | symbolic name r =>
      rw [harg] at hkind hvalue
      have hown : r.table = u.symbols.id := by
        cases o with
        | symbol name =>
            cases harg
            rfl
        | _ => cases harg
      rw [equateValue, if_pos hown] at hvalue
      cases hvalue
      exact ⟨_, .pointer hkind⟩

/-- A declared name has the value that its line gives it. -/
theorem exists_gives (hlower : d.lower id = .ok u)
    (h : (assemble u.program u.symbols options).outcome = .ok a) (hs : d.lines[k]? = some s)
    (hname : s.symbol? = some name) :
  ∃ value v?, a.Gives ⟨k, s.line u.symbols⟩ value v?
    ∧ (assemble u.program u.symbols options).symbols.value? (u.symbols.position name)
      = some value
  := by
  have hu : u.Labelled := .document hlower
  have hl := mem_numbered hlower hs
  have hi : (s.line u.symbols).symbol? = some (u.symbols.position name) := by
    rw [SourceLine.line, hname, Option.map_some]
  by_cases hkind : ∃ o, s.operation = .equate o
  · obtain ⟨o, ho⟩ := hkind
    have hline : (s.line u.symbols).kind = .equate (o.argument u.symbols) := by
      rw [SourceLine.line, ho, Operation.kind]
    obtain ⟨value, hvalue, hget⟩ := exists_value_of_equate hu h hl hi hline
    obtain ⟨v?, hgives⟩ := gives_of_equate (l := ⟨k, s.line u.symbols⟩) hline hvalue
    exact ⟨value, v?, hgives, hget⟩
  · have hline : ∀ argument, (s.line u.symbols).kind ≠ .equate argument := by
      intro argument hline
      rw [SourceLine.line] at hline
      cases ho : s.operation with
      | equate o => apply hkind ⟨o, ho⟩
      | _ => rw [ho] at hline; cases hline
    cases he : a.addresses.get? k with
    | some e =>
        obtain ⟨p, _, _, entry, -, -, -, -, hentry, -, hvalue, haddress, -⟩ :=
          exists_location_of_label hu h hl hi hline
        rw [he] at haddress
        split at haddress
        · cases haddress
        · cases haddress
          refine ⟨_, _, .bytes he, ?_⟩
          rw [SymbolTable.value?, hentry, Option.map_some, hvalue]
    | none =>
        obtain ⟨address, hvalue, horg, hnext⟩ := exists_location_of_idle hu h hl hi hline he
        exact ⟨_, _, .idle hline he horg hnext, hvalue⟩

/-! ### Chains of aliases -/

/-- A number of aliases of a document that lead from one name to another. -/
inductive AliasChain (d : Document) : Nat → String → String → Prop
  | refl (name : String) : AliasChain d 0 name name
  | step {n : Nat} {s : SourceLine} {name next last : String} (hs : s ∈ d.lines)
      (hname : s.symbol? = some name) (halias : s.operation = .equate (.symbol next))
      (hrest : AliasChain d n next last) : AliasChain d (n + 1) name last

/-- An alias points to its symbol. -/
theorem value?_of_alias (hlower : d.lower id = .ok u)
    (h : (assemble u.program u.symbols options).outcome = .ok a) (hs : s ∈ d.lines)
    (hname : s.symbol? = some name) {next : String}
    (halias : s.operation = .equate (.symbol next)) :
  (assemble u.program u.symbols options).symbols.value? (u.symbols.position name)
    = some (.internal (u.symbols.position next))
  := by
  obtain ⟨k, hk⟩ := List.mem_iff_getElem?.mp hs
  have hkind : (s.line u.symbols).kind
      = .equate (.symbolic next (u.symbols.ref (u.symbols.position next))) := by
    rw [SourceLine.line, halias, Operation.kind, Operand.argument]
  have hi : (s.line u.symbols).symbol? = some (u.symbols.position name) := by
    rw [SourceLine.line, hname, Option.map_some]
  obtain ⟨value, hvalue, hget⟩ :=
    exists_value_of_equate (.document hlower) h (mem_numbered hlower hk) hi hkind
  rw [hget, ← Except.ok.inj hvalue, if_pos]
  · rfl
  · rfl

/-- A chain of aliases is one of pointers. -/
theorem AliasChain.points (hlower : d.lower id = .ok u)
    (h : (assemble u.program u.symbols options).outcome = .ok a) {n : Nat} {last : String}
    (hchain : d.AliasChain n name last) :
  (assemble u.program u.symbols options).symbols.Points n (u.symbols.position name)
    (u.symbols.position last)
  := by
  induction hchain with
  | refl name => apply SymbolTable.Points.refl
  | step hs hname halias _ ih =>
      apply SymbolTable.Points.step (value?_of_alias hlower h hs hname halias) ih

end Document

/-! ### Operands of a document -/

/-- The operand that a line writes in its bytes: how far from the start of the line, in how many
bytes, and what. -/
def Operation.operand? : Operation → Option (Nat × UInt8 × Operand)
  | .nonUnary _ o _ => some (1, 2, o)
  | .byte o => some (0, 1, o)
  | .word o => some (0, 2, o)
  | _ => none

theorem Operation.eq_of_kind_alias {op : Operation} {t : SymbolTable} {name : String}
    {r : SymbolRef} (h : op.kind t = .equate (.symbolic name r)) :
  op = .equate (.symbol name)
  := by
  cases op with
  | equate o =>
      cases o with
      | symbol name =>
          cases h
          rfl
      | _ => cases h
  | _ => cases h

theorem Operation.operand?_kind (op : Operation) (t : SymbolTable) :
  (op.kind t).operand?
    = op.operand?.map fun (offset, width, o) => (offset, width, o.argument t)
  := by
  cases op with
  | _ => rfl

namespace Assembly

/-- The operands of a document that name a symbol hold a number wherever they have bytes, and none
of them is left for relocation. -/
def OperandsHold (a : Assembly) (d : Document) (name : String) (v : UInt64) : Prop :=
  ∀ k s offset width, d.lines[k]? = some s →
    s.operation.operand? = some (offset, width, .symbol name) →
    (∀ r ∈ a.object.relocations, r.line ≠ k) ∧ ∀ e, a.Stores k e → a.Holds k offset width v

/-- The operands of a document that name a symbol are left for relocation wherever they have
bytes. -/
def OperandsAwait (a : Assembly) (d : Document) (name : String) : Prop :=
  ∀ k s offset width, d.lines[k]? = some s →
    s.operation.operand? = some (offset, width, .symbol name) →
    ∀ e, a.Stores k e → a.Awaits k offset width name

end Assembly

namespace Document

variable {d : Document} {id : TableId} {u : ProgramUnit} {options : Options} {a : Assembly}
  {name : String}

theorem operand?_line {s : SourceLine} {offset : Nat} {width : UInt8} (t : SymbolTable)
    (h : s.operation.operand? = some (offset, width, .symbol name)) :
  (s.line t).kind.operand?
    = some (offset, width, .symbolic name (t.ref (t.position name)))
  := by
  rw [SourceLine.line, Operation.operand?_kind, h]
  rfl

theorem operandsHold (hlower : d.lower id = .ok u)
    (h : (assemble u.program u.symbols options).outcome = .ok a) {v : UInt64}
    (hv : (assemble u.program u.symbols options).symbols.resolveRef
      (u.symbols.ref (u.symbols.position name)) options.linked = some v) :
  a.OperandsHold d name v
  := by
  intro k s offset width hs hoperand
  obtain ⟨codes, hemits⟩ := exists_emits h
  have hl := (mem_sectionOrder_iff h).mpr (mem_numbered hlower hs)
  have hoperand' := operand?_line u.symbols hoperand
  constructor
  · apply hemits.relocation_line_ne hl
    simp [LineKind.pending?, hoperand', Argument.pending?, hv]
  · intro e he
    apply hemits.holds hl hoperand' hv he

theorem operandsAwait (hlower : d.lower id = .ok u)
    (h : (assemble u.program u.symbols options).outcome = .ok a)
    (hnone : (assemble u.program u.symbols options).symbols.resolveRef
      (u.symbols.ref (u.symbols.position name)) options.linked = none) :
  a.OperandsAwait d name
  := by
  intro k s offset width hs hoperand e he
  obtain ⟨codes, hemits⟩ := exists_emits h
  have hl := (mem_sectionOrder_iff h).mpr (mem_numbered hlower hs)
  apply hemits.awaits hl (operand?_line u.symbols hoperand) hnone he

end Document

/-- Assembling a program keeps the identifier of its table. -/
theorem id_symbols_assemble {program : Program} {symbols : SymbolTable} {options : Options}
    {a : Assembly} (h : (assemble program symbols options).outcome = .ok a) :
  (assemble program symbols options).symbols.id = symbols.id
  := by
  obtain ⟨sections, -, -, -, -, hfinal⟩ := exists_layout_of_assemble h
  rw [hfinal, Traced.enterInto, SymbolTable.id_foldl_enter]
  rfl

/-- The references of a program are looked up in its own table. -/
theorem resolveRef_ref {program : Program} {symbols : SymbolTable} {options : Options}
    {a : Assembly} (h : (assemble program symbols options).outcome = .ok a) (i : SymbolId) :
  (assemble program symbols options).symbols.resolveRef (symbols.ref i) options.linked
    = (assemble program symbols options).symbols.resolve i options.linked
  := by
  rw [SymbolTable.resolveRef, if_pos]
  · rfl
  · rw [SymbolTable.owns, SymbolTable.ref, decide_eq_true_eq, id_symbols_assemble h]

/-- A chain of at most thirty-two aliases stands for what its last line declares, and all operands
that name its first symbol hold that number.  A longer chain stands for nothing, and all these
operands are left for relocation. -/
theorem resolve_of_aliasChain {d : Document} {id : TableId} {u : ProgramUnit} {options : Options}
    {a : Assembly} (hlower : d.lower id = .ok u)
    (h : (assemble u.program u.symbols options).outcome = .ok a) {n : Nat} {name last : String}
    (hchain : d.AliasChain n name last) {k : LineId} {s : SourceLine}
    (hs : d.lines[k]? = some s) (hlast : s.symbol? = some last)
    (hend : ∀ next, s.operation ≠ .equate (.symbol next)) :
  ∃ value v, a.Gives ⟨k, s.line u.symbols⟩ value (some v)
    ∧ (assemble u.program u.symbols options).symbols.value? (u.symbols.position last)
      = some value
    ∧ (assemble u.program u.symbols options).symbols.resolveRef
        (u.symbols.ref (u.symbols.position name)) options.linked
      = (if n ≤ SymbolTable.maxHops then some v else none)
    ∧ (n ≤ SymbolTable.maxHops → a.OperandsHold d name v)
    ∧ (SymbolTable.maxHops < n → a.OperandsAwait d name)
  := by
  obtain ⟨value, v?, hgives, hvalue⟩ := Document.exists_gives hlower h hs hlast
  have hkind : ∀ next r, (s.line u.symbols).kind ≠ .equate (.symbolic next r) := by
    intro next r hkind
    apply hend next (Operation.eq_of_kind_alias hkind)
  obtain ⟨v, rfl⟩ := hgives.exists_number hkind
  have hresolve : (assemble u.program u.symbols options).symbols.resolveRef
        (u.symbols.ref (u.symbols.position name)) options.linked
      = if n ≤ SymbolTable.maxHops then some v else none := by
    rw [resolveRef_ref h, (hchain.points hlower h).resolve_eq hvalue hgives.number?_eq]
  refine ⟨value, v, hgives, hvalue, hresolve, ?_, ?_⟩
  · intro hle
    rw [if_pos hle] at hresolve
    apply Document.operandsHold hlower h hresolve
  · intro hlt
    rw [if_neg (Nat.not_le_of_lt hlt)] at hresolve
    apply Document.operandsAwait hlower h hresolve

/-! ### Chains of a given length -/

/-- Different names. -/
def aliasName (i : Nat) : String :=
  String.ofList (List.replicate (i + 1) 'a')

/-- A document with a word that names the first of `n` aliases, each of which is an alias of the
next.  The last one is an alias of a constant. -/
def Document.aliases (n : Nat) : Document where
  lines := { operation := .word (.symbol (aliasName 0)) }
    :: (List.range n).map (fun i =>
      { operation := .equate (.symbol (aliasName (i + 1))), symbol? := some (aliasName i) })
    ++ [{ operation := .equate (.decimal 7), symbol? := some (aliasName n) }]

/-- The program and the symbols of the document `aliases`. -/
def ProgramUnit.aliases (n : Nat) : ProgramUnit where
  program := { kind := .data .word (.symbolic (aliasName 0) ⟨0, 0⟩) }
    :: (List.range n).map (fun i =>
      { kind := .equate (.symbolic (aliasName (i + 1)) ⟨0, i + 1⟩), symbol? := some i })
    ++ [{ kind := .equate (.literal (.decimal 7)), symbol? := some n }]
  symbols := {
    id := 0
    entries := (List.range (n + 1)).map fun i => { name := aliasName i, state := .single } }

theorem Document.aliasChain_aliases {n m i : Nat} (h : i + m ≤ n) :
  (Document.aliases n).AliasChain m (aliasName i) (aliasName (i + m))
  := by
  induction m generalizing i with
  | zero => apply AliasChain.refl
  | succ m ih =>
      have hs : (⟨some (aliasName i), .equate (.symbol (aliasName (i + 1))), none⟩ : SourceLine)
          ∈ (Document.aliases n).lines := by
        apply List.mem_append_left
        apply List.mem_cons_of_mem
        apply List.mem_map.mpr
        use i, List.mem_range.mpr (by omega)
      rw [← Nat.add_assoc, Nat.add_right_comm]
      apply AliasChain.step hs rfl rfl (ih (by omega))

theorem buffers_assemble_aliases :
  (assemble (ProgramUnit.aliases 32).program (ProgramUnit.aliases 32).symbols {}).outcome.map
    (fun a => (a.object.buffers, a.object.relocations)) = .ok ([[0, 7]], [])
  := by
  cbv

theorem resolveRef_assemble_aliases :
  (assemble (ProgramUnit.aliases 32).program (ProgramUnit.aliases 32).symbols {}).symbols.resolveRef
    ((ProgramUnit.aliases 32).symbols.ref ((ProgramUnit.aliases 32).symbols.position (aliasName 0)))
    [] = some 7
  := by
  cbv

/-- Thirty-two aliases are not too many. -/
theorem resolve_of_aliasChain_longest :
  (Document.aliases 32).lower 0 = .ok (.aliases 32)
    ∧ ∃ a, (assemble (ProgramUnit.aliases 32).program (ProgramUnit.aliases 32).symbols {}).outcome
        = .ok a
      ∧ a.object.buffers = [[0, 7]] ∧ a.object.relocations = []
      ∧ (Document.aliases 32).AliasChain 32 (aliasName 0) (aliasName 32)
      ∧ a.OperandsHold (Document.aliases 32) (aliasName 0) 7
  := by
  have hlower : (Document.aliases 32).lower 0 = .ok (.aliases 32) := by decide +kernel
  have hchain := Document.aliasChain_aliases (n := 32) (m := 32) (i := 0) (by decide)
  obtain ⟨a, ha, heq⟩ := Except.map_eq_ok_iff.mp buffers_assemble_aliases
  rw [Prod.mk.injEq] at heq
  have hs : (Document.aliases 32).lines[33]?
      = some { operation := .equate (.decimal 7), symbol? := some (aliasName 32) } := by
    decide +kernel
  obtain ⟨value, v, -, -, hresolve, hhold, -⟩ :=
    resolve_of_aliasChain hlower ha hchain hs rfl (by simp)
  cases resolveRef_assemble_aliases.symm.trans hresolve
  exact ⟨hlower, a, ha, heq.1, heq.2, hchain, hhold (Nat.le_refl _)⟩

theorem relocations_assemble_aliases :
  (assemble (ProgramUnit.aliases 33).program (ProgramUnit.aliases 33).symbols {}).outcome.map
    (·.object.relocations) = .ok [⟨0, 0, 2, "a", 0⟩]
  := by
  cbv

/-- A chain of thirty-three aliases ends at a constant, and yet the operand that names its first
symbol has no value and is left for relocation. -/
theorem not_forall_resolveRef_of_aliasChain :
  ¬ ∀ (d : Document) (id : TableId) (u : ProgramUnit) (options : Options) (a : Assembly) (n : Nat)
    (name last : String) (k : LineId) (s : SourceLine),
    d.lower id = .ok u → (assemble u.program u.symbols options).outcome = .ok a →
    d.AliasChain n name last → d.lines[k]? = some s → s.symbol? = some last →
    (∀ next, s.operation ≠ .equate (.symbol next)) →
    ∃ v, (assemble u.program u.symbols options).symbols.resolveRef
        (u.symbols.ref (u.symbols.position name)) options.linked = some v
      ∧ a.OperandsHold d name v
  := by
  intro h
  have hlower : (Document.aliases 33).lower 0 = .ok (.aliases 33) := by decide +kernel
  have hchain := Document.aliasChain_aliases (n := 33) (m := 33) (i := 0) (by decide)
  obtain ⟨a, ha, heq⟩ := Except.map_eq_ok_iff.mp relocations_assemble_aliases
  have hs : (Document.aliases 33).lines[34]?
      = some { operation := .equate (.decimal 7), symbol? := some (aliasName 33) } := by
    decide +kernel
  obtain ⟨v, -, hhold⟩ := h _ _ _ _ _ _ _ _ _ _ hlower ha hchain hs rfl (by simp)
  have hsettled := (hhold 0 _ 0 2 rfl rfl).1
  rw [heq] at hsettled
  apply hsettled _ List.mem_cons_self rfl

end Pep10
