import Pep10.Proofs.Aliases
import Pep10.Proofs.LateDefinition

/-!
# Imports

A name that a document imports is looked up in the tables that the document is linked with, which
come from documents assembled on their own.  A line of the document that declares the name goes
before them.  Otherwise the name stands for the entry of the first table that exports it, and its
operands hold the number that this table gives the entry.  If no table exports it, the name stays
without a value, and its operands are left for relocation.
-/

namespace Pep10

theorem names_of_assemble (program : Program) (symbols : SymbolTable) (options : Options) :
  (assemble program symbols options).symbols.names = symbols.names
  := by
  apply List.ext_getElem?
  intro i
  have hname := congrArg (Option.map (·.1)) (head_of_assemble program symbols options i)
  rw [Option.map_map, Option.map_map] at hname
  rw [← SymbolTable.name?_eq_getElem?, ← SymbolTable.name?_eq_getElem?]
  apply hname

/-! ### Tables without external pointers -/

namespace SymbolTable

variable {t : SymbolTable} {linked : List SymbolTable} {hops : Nat} {i j : SymbolId} {v : UInt64}

theorem position_inj {name name' : String} (h : name ∈ t.names)
    (heq : t.position name' = t.position name) :
  name' = name
  := by
  have h' : name' ∈ t.names := by
    apply List.idxOf_lt_length_iff.mp
    rw [← position, heq]
    apply List.idxOf_lt_length_of_mem h
  have hname := name?_position h
  rw [← heq, name?_position h'] at hname
  apply Option.some_inj.mp hname

/-- A table whose pointers do not lead out of it. -/
def Closed (t : SymbolTable) : Prop :=
  ∀ i r, t.value? i ≠ some (.external r)

theorem Points.exists_value {n : Nat} (h : t.Points n i j) {value : SymbolValue}
    (hj : t.value? j = some value) :
  ∃ value, t.value? i = some value
  := by
  cases h with
  | refl => exact ⟨value, hj⟩
  | step hi _ => exact ⟨_, hi⟩

theorem Closed.points_of_hops (ht : t.Closed) {n : Nat} {u : SymbolTable}
    (h : Hops linked n t i u j) :
  u = t ∧ t.Points n i j
  := by
  induction h with
  | refl t i => exact ⟨rfl, .refl i⟩
  | step hhop _ ih =>
      cases hhop with
      | internal hi =>
          obtain ⟨rfl, hpoints⟩ := ih ht
          exact ⟨rfl, .step hi hpoints⟩
      | external hi _ => cases ht _ _ hi

/-- Where pointers do not lead out of a table, a number is found at the end of a chain of them. -/
theorem Closed.resolveWithin_eq_some_iff (ht : t.Closed) :
  resolveWithin linked hops t i = some v
    ↔ ∃ n j value, n ≤ hops ∧ t.Points n i j ∧ t.value? j = some value ∧ value.number? = some v
  := by
  rw [SymbolTable.resolveWithin_eq_some_iff]
  simp only [SymbolValue.number?_eq_some_iff]
  constructor
  · rintro ⟨n, u, j, value, hle, hhops, hvalue, hv⟩
    obtain ⟨rfl, hpoints⟩ := ht.points_of_hops hhops
    exact ⟨n, j, value, hle, hpoints, hvalue, hv⟩
  · rintro ⟨n, j, value, hle, hpoints, hvalue, hv⟩
    exact ⟨n, t, j, value, hle, hpoints.toHops, hvalue, hv⟩

end SymbolTable

/-! ### Names without a declaration -/

namespace Document

variable {d : Document} {id : TableId} {u : ProgramUnit} {options : Options} {a : Assembly}
  {name : String}

/-- The value of a name that no line declares. -/
def importValue (d : Document) (linked : List SymbolTable) (name : String) : SymbolValue :=
  if d.binding name = .imported then
    match linked.findSome? (·.export? name) with
    | some target => .external target
    | none => .empty
  else .empty

theorem importValue_nil (d : Document) (name : String) :
  d.importValue [] name = .empty
  := by
  rw [importValue]
  split
  · rfl
  · rfl

theorem value?_bindImports (hlower : d.lower id = .ok u) (linked : List SymbolTable)
    (hname : name ∈ u.symbols.names) :
  (u.symbols.bindImports linked).value? (u.symbols.position name)
    = some (d.importValue linked name)
  := by
  obtain ⟨e, he, hename⟩ := Option.map_eq_some_iff.mp (SymbolTable.name?_position hname)
  have hmem := List.mem_of_getElem? he
  have hvalue := (lower_eq_ok hlower).2.1.value_eq e hmem
  have hbinding := (binds_of_lower hlower).binding_eq e hmem
  rw [hename] at hbinding
  rw [SymbolTable.value?, SymbolTable.get?_bindImports, he, Option.map_some, Option.map_some,
    SymbolEntry.bindImport, importValue, hvalue, hbinding, hename]
  by_cases himported : d.binding name = .imported
  · simp only [himported, SymbolValue.isEmpty, decide_true, Bool.and_self, if_true]
    cases linked.findSome? (·.export? name) with
    | none => rw [hvalue]
    | some target => rfl
  · simp [himported, hvalue]

/-- A name that no line declares has the value of its import. -/
theorem value?_of_undeclared (hlower : d.lower id = .ok u)
    (h : (assemble u.program u.symbols options).outcome = .ok a) (hname : name ∈ u.symbols.names)
    (hundeclared : ∀ s ∈ d.lines, s.symbol? ≠ some name) :
  (assemble u.program u.symbols options).symbols.value? (u.symbols.position name)
    = some (d.importValue options.linked name)
  := by
  rw [Pep10.value?_of_undeclared h, value?_bindImports hlower options.linked hname]
  intro l hl hi
  rw [program_of_lower hlower] at hl
  obtain ⟨s, hs, rfl⟩ := List.mem_map.mp hl
  obtain ⟨name', hname', hposition⟩ := Option.map_eq_some_iff.mp hi
  obtain rfl := SymbolTable.position_inj hname hposition
  apply hundeclared s hs hname'

end Document

/-! ### Documents assembled on their own -/

/-- A document that is assembled without links. -/
structure Library where
  document : Document
  id : TableId
  unit : ProgramUnit
  options : Options
  lower_eq : document.lower id = .ok unit
  linked_eq : options.linked = []
  assembles : ∃ a, (assemble unit.program unit.symbols options).outcome = .ok a

namespace Library

/-- The symbols of a library. -/
def table (L : Library) : SymbolTable :=
  (assemble L.unit.program L.unit.symbols L.options).symbols

variable {L : Library} {i j : SymbolId} {name : String} {value : SymbolValue}

theorem names_table (L : Library) :
  L.table.names = L.unit.symbols.names
  := names_of_assemble L.unit.program L.unit.symbols L.options

theorem nodup_names (L : Library) :
  L.table.names.Nodup
  := by
  rw [names_table]
  apply (Document.lower_eq_ok L.lower_eq).2.1.nodup_names

/-- A symbol of a library has a value only from the line that declares it. -/
theorem exists_declaration (hvalue : L.table.value? i = some value) (hne : value ≠ .empty)
    (hname : L.unit.symbols.name? i = some name) {a : Assembly}
    (ha : (assemble L.unit.program L.unit.symbols L.options).outcome = .ok a) :
  ∃ k s v?, L.document.lines[k]? = some s ∧ s.symbol? = some name
    ∧ a.Gives ⟨k, s.line L.unit.symbols⟩ value v?
  := by
  have hnodup := (Document.lower_eq_ok L.lower_eq).2.1.nodup_names
  obtain rfl := SymbolTable.position_eq_of_name? hnodup hname
  by_cases hdeclared : ∃ s ∈ L.document.lines, s.symbol? = some name
  · obtain ⟨s, hs, hsymbol⟩ := hdeclared
    obtain ⟨k, hk⟩ := List.mem_iff_getElem?.mp hs
    obtain ⟨value', v?, hgives, hvalue'⟩ := Document.exists_gives L.lower_eq ha hk hsymbol
    obtain rfl := Option.some_inj.mp (hvalue'.symm.trans hvalue)
    exact ⟨k, s, v?, hk, hsymbol, hgives⟩
  · have hundeclared : ∀ s ∈ L.document.lines, s.symbol? ≠ some name := by
      intro s hs hsymbol
      apply hdeclared ⟨s, hs, hsymbol⟩
    have hempty := Document.value?_of_undeclared L.lower_eq ha
      (SymbolTable.name_mem_of_name? hname) hundeclared
    rw [L.linked_eq, Document.importValue_nil] at hempty
    cases hne (Option.some_inj.mp (hvalue.symm.trans hempty))

theorem exists_name (hvalue : L.table.value? i = some value) :
  ∃ name, L.unit.symbols.name? i = some name
  := by
  obtain ⟨e, he, -⟩ := Option.map_eq_some_iff.mp hvalue
  use e.name
  rw [SymbolTable.name?_eq_getElem?, ← names_table, ← SymbolTable.name?_eq_getElem?,
    SymbolTable.name?, he, Option.map_some]

/-- Pointers do not lead out of a library. -/
theorem closed_table (L : Library) :
  L.table.Closed
  := by
  obtain ⟨a, ha⟩ := L.assembles
  intro i r hvalue
  obtain ⟨name, hname⟩ := exists_name hvalue
  obtain ⟨k, s, v?, -, -, hgives⟩ := exists_declaration hvalue (by simp) hname ha
  cases hgives

/-- The line of a pointer is that of an alias. -/
theorem exists_alias (hvalue : L.table.value? i = some (.internal j))
    (hname : L.unit.symbols.name? i = some name) :
  ∃ s ∈ L.document.lines, s.symbol? = some name ∧ ∃ next, s.operation = .equate (.symbol next)
    ∧ L.unit.symbols.position next = j
  := by
  obtain ⟨a, ha⟩ := L.assembles
  obtain ⟨k, s, v?, hs, hsymbol, hgives⟩ := exists_declaration hvalue (by simp) hname ha
  cases hgives with
  | @pointer next r hkind =>
      have halias := Operation.eq_of_kind_alias hkind
      refine ⟨s, List.mem_of_getElem? hs, hsymbol, next, halias, ?_⟩
      rw [SourceLine.line, halias, Operation.kind, Operand.argument] at hkind
      cases hkind
      rfl

/-- A chain of pointers of a library to a number is one of aliases. -/
theorem exists_aliasChain {n : Nat} (h : L.table.Points n i j)
    (hvalue : L.table.value? j = some value) {v : UInt64} (hv : value.number? = some v)
    (hname : L.unit.symbols.name? i = some name) :
  ∃ last, L.document.AliasChain n name last ∧ ∃ s ∈ L.document.lines, s.symbol? = some last
    ∧ ∀ next, s.operation ≠ .equate (.symbol next)
  := by
  obtain ⟨a, ha⟩ := L.assembles
  have hnodup := (Document.lower_eq_ok L.lower_eq).2.1.nodup_names
  induction h generalizing name with
  | refl i =>
      have hne : value ≠ .empty := by
        rintro rfl
        cases hv
      obtain ⟨k, s, v?, hs, hsymbol, hgives⟩ := exists_declaration hvalue hne hname ha
      refine ⟨name, .refl name, s, List.mem_of_getElem? hs, hsymbol, ?_⟩
      intro next halias
      have hinternal :=
        Document.value?_of_alias L.lower_eq ha (List.mem_of_getElem? hs) hsymbol halias
      rw [SymbolTable.position_eq_of_name? hnodup hname] at hinternal
      cases hvalue.symm.trans hinternal
      cases hv
  | step hi hj ih =>
      obtain ⟨s, hs, hsymbol, next, halias, rfl⟩ := exists_alias hi hname
      obtain ⟨_, hnext⟩ := hj.exists_value hvalue
      obtain ⟨next', hname'⟩ := exists_name hnext
      have hposition := SymbolTable.position_eq_of_name? hnodup hname'
      obtain rfl := SymbolTable.position_inj (SymbolTable.name_mem_of_name? hname') hposition.symm
      obtain ⟨last, hchain, hlast⟩ := ih hvalue hname'
      exact ⟨last, .step hs hsymbol halias hchain, hlast⟩

end Library

/-! ### Exports -/

namespace SymbolTable

variable {t : SymbolTable} {i : SymbolId} {e : SymbolEntry} {name : String}

/-- A table has a name that is exported and defined once. -/
def Exports (t : SymbolTable) (name : String) : Prop :=
  ∃ e ∈ t.entries, e.name = name ∧ e.binding = .global ∧ e.state = .single

theorem export?_eq_some (hnodup : t.names.Nodup) (he : t.get? i = some e) (hname : e.name = name)
    (hbinding : e.binding = .global) (hstate : e.state = .single) :
  t.export? name = some (t.ref i)
  := by
  have hi : t.name? i = some name := by rw [name?, he, Option.map_some, hname]
  rw [export?, find?_eq_some_position (name_mem_of_name? hi), position_eq_of_name? hnodup hi]
  simp [he, SymbolEntry.isExported, SymbolEntry.isSingle, hbinding, hstate]

theorem export?_eq_none (h : ¬ t.Exports name) :
  t.export? name = none
  := by
  by_cases hname : name ∈ t.names
  · obtain ⟨e, he, hename⟩ := Option.map_eq_some_iff.mp (name?_position hname)
    have hexported : ¬ e.isExported := by
      intro hexported
      simp only [SymbolEntry.isExported, SymbolEntry.isSingle, Bool.and_eq_true,
        decide_eq_true_eq] at hexported
      apply h ⟨e, List.mem_of_getElem? he, hename, hexported⟩
    rw [export?, find?_eq_some_position hname]
    simp [he, hexported]
  · rw [export?, find?_eq_none hname]
    rfl

/-- An external pointer takes one hop. -/
theorem resolve_of_external {u : SymbolTable} {linked : List SymbolTable} {r : SymbolRef}
    (hvalue : t.value? i = some (.external r))
    (hfind : linked.find? (·.id == r.table) = some u) :
  t.resolve i linked = resolveWithin linked 31 u r.entry
  := by
  rw [resolve, maxHops, resolveWithin, denotation, hvalue]
  simp only [hfind]

end SymbolTable

/-- The entry of the first library that exports a name. -/
structure FirstExport (libraries : List Library) (name : String) (L : Library) (i : SymbolId) :
    Prop where
  first : ∃ before after, libraries = before ++ L :: after
    ∧ ∀ L' ∈ before, ¬ L'.table.Exports name
  entry : ∃ e, L.table.get? i = some e ∧ e.name = name ∧ e.binding = .global ∧ e.state = .single

/-- A name leads to a label or a constant by a limited number of aliases, if it does at all. -/
def Document.AliasesWithin (d : Document) (limit : Nat) (name : String) : Prop :=
  ∀ n last, d.AliasChain n name last →
    (∃ s ∈ d.lines, s.symbol? = some last ∧ ∀ next, s.operation ≠ .equate (.symbol next)) →
    n ≤ limit

namespace FirstExport

variable {libraries : List Library} {name : String} {L : Library} {i : SymbolId}

theorem mem (h : FirstExport libraries name L i) :
  L ∈ libraries
  := by
  obtain ⟨before, after, rfl, -⟩ := h.first
  simp

theorem findSome?_eq (h : FirstExport libraries name L i) :
  (libraries.map Library.table).findSome? (·.export? name) = some (L.table.ref i)
  := by
  obtain ⟨before, after, rfl, hbefore⟩ := h.first
  obtain ⟨e, he, hname, hbinding, hstate⟩ := h.entry
  have hexport := SymbolTable.export?_eq_some L.nodup_names he hname hbinding hstate
  have hnone : (before.map Library.table).findSome? (·.export? name) = none := by
    rw [List.findSome?_eq_none_iff, List.forall_mem_map]
    intro L' hL'
    apply SymbolTable.export?_eq_none (hbefore L' hL')
  rw [List.map_append, List.map_cons, List.findSome?_append, hnone, Option.none_or,
    List.findSome?_cons, hexport]

theorem name?_eq (h : FirstExport libraries name L i) :
  L.unit.symbols.name? i = some name
  := by
  obtain ⟨e, he, rfl, -⟩ := h.entry
  rw [SymbolTable.name?_eq_getElem?, ← Library.names_table, ← SymbolTable.name?_eq_getElem?,
    SymbolTable.name?, he, Option.map_some]

/-- One hop less leads as far, if a chain of aliases does not need all of them. -/
theorem resolveWithin_eq (h : FirstExport libraries name L i)
    (hwithin : L.document.AliasesWithin 31 name) (linked : List SymbolTable) :
  SymbolTable.resolveWithin linked 31 L.table i = L.table.resolve i []
  := by
  apply Option.ext
  intro v
  rw [SymbolTable.resolve, L.closed_table.resolveWithin_eq_some_iff,
    L.closed_table.resolveWithin_eq_some_iff]
  constructor
  · rintro ⟨n, j, value, hle, hpoints, hvalue, hv⟩
    exact ⟨n, j, value, Nat.le_succ_of_le hle, hpoints, hvalue, hv⟩
  · rintro ⟨n, j, value, -, hpoints, hvalue, hv⟩
    obtain ⟨last, hchain, hlast⟩ := Library.exists_aliasChain hpoints hvalue hv h.name?_eq
    exact ⟨n, j, value, hwithin n last hchain hlast, hpoints, hvalue, hv⟩

/-- A line of the library declares the name. -/
theorem exists_line (h : FirstExport libraries name L i) :
  ∃ (k : LineId) (s : SourceLine), L.document.lines[k]? = some s ∧ s.symbol? = some name
  := by
  obtain ⟨e, he, hname, -, hstate⟩ := h.entry
  have hhead := head_of_assemble L.unit.program L.unit.symbols L.options i
  rw [← Library.table, he, Option.map_some] at hhead
  obtain ⟨e', he', hhead⟩ := Option.map_eq_some_iff.mp hhead.symm
  have hcount := (Document.lower_eq_ok L.lower_eq).2.1.state_eq e' (List.mem_of_getElem? he')
  simp only [SymbolEntry.head, Prod.mk.injEq] at hhead
  rw [hhead.1, hhead.2.1, hstate, hname, eq_comm, DefinitionState.ofCount_eq_single_iff] at hcount
  have hmem : name ∈ L.document.lines.filterMap (·.symbol?) := by
    rw [← List.count_pos_iff, hcount]
    apply Nat.one_pos
  obtain ⟨s, hs, hsymbol⟩ := List.mem_filterMap.mp hmem
  obtain ⟨k, hk⟩ := List.mem_iff_getElem?.mp hs
  exact ⟨k, s, hk, hsymbol⟩

end FirstExport

/-! ### The law of imports -/

/-- What an imported name of a document stands for, when `final` is the table after the assembly
and the document is linked with `libraries`. -/
structure ImportLaw (d : Document) (u : ProgramUnit) (a : Assembly) (final : SymbolTable)
    (libraries : List Library) (name : String) : Prop where
  /-- A line that declares the name gives its value, whatever the libraries export. -/
  declared : ∀ {k s}, d.lines[k]? = some s → s.symbol? = some name →
    ∃ value v?, a.Gives ⟨k, s.line u.symbols⟩ value v?
      ∧ final.value? (u.symbols.position name) = some value
  /-- Otherwise the name stands for the entry of the first library that exports it. -/
  exported : (∀ s ∈ d.lines, s.symbol? ≠ some name) →
    ∀ {L i}, FirstExport libraries name L i →
    final.value? (u.symbols.position name) = some (.external ⟨L.table.id, i⟩)
  /-- The operands hold the number that the library gives the entry, or wait for it. -/
  operands : (∀ s ∈ d.lines, s.symbol? ≠ some name) →
    ∀ {L i}, FirstExport libraries name L i → L.document.AliasesWithin 31 name →
    (∀ v, L.table.resolve i [] = some v → a.OperandsHold d name v)
      ∧ (L.table.resolve i [] = none → a.OperandsAwait d name)
  /-- That number comes from the line that declares the name in the library: the address of a label
  in the layout of the library, or a constant. -/
  number : ∀ {L i b}, FirstExport libraries name L i →
    (assemble L.unit.program L.unit.symbols L.options).outcome = .ok b →
    ∃ k s value v?, L.document.lines[k]? = some s ∧ s.symbol? = some name
      ∧ b.Gives ⟨k, s.line L.unit.symbols⟩ value v? ∧ L.table.value? i = some value
      ∧ ∀ v, v? = some v → L.table.resolve i [] = some v
  /-- A name that no library exports has no value. -/
  unexported : (∀ s ∈ d.lines, s.symbol? ≠ some name) →
    (∀ L ∈ libraries, ¬ L.table.Exports name) →
    final.value? (u.symbols.position name) = some .empty ∧ a.OperandsAwait d name

section

variable {d : Document} {id : TableId} {u : ProgramUnit} {options : Options} {a : Assembly}
  {libraries : List Library} {name : String} {L : Library} {i : SymbolId}

theorem Document.name_mem_of_imported (hlower : d.lower id = .ok u)
    (himported : d.binding name = .imported) :
  name ∈ u.symbols.names
  := by
  by_contra hname
  rw [(binds_of_lower hlower).absent name hname] at himported
  cases himported

theorem FirstExport.value?_eq (hfirst : FirstExport libraries name L i)
    (hlower : d.lower id = .ok u) (h : (assemble u.program u.symbols options).outcome = .ok a)
    (hlinked : options.linked = libraries.map Library.table)
    (himported : d.binding name = .imported)
    (hundeclared : ∀ s ∈ d.lines, s.symbol? ≠ some name) :
  (assemble u.program u.symbols options).symbols.value? (u.symbols.position name)
    = some (.external ⟨L.table.id, i⟩)
  := by
  rw [Document.value?_of_undeclared hlower h (Document.name_mem_of_imported hlower himported)
    hundeclared, Document.importValue, if_pos himported, hlinked, hfirst.findSome?_eq]
  rfl

/-- The number of an exported name is found in its library. -/
theorem FirstExport.resolveRef_eq (hfirst : FirstExport libraries name L i)
    (hlower : d.lower id = .ok u) (h : (assemble u.program u.symbols options).outcome = .ok a)
    (hlinked : options.linked = libraries.map Library.table)
    (hids : ∀ L ∈ libraries, ∀ L' ∈ libraries, L.table.id = L'.table.id → L.table = L'.table)
    (himported : d.binding name = .imported)
    (hundeclared : ∀ s ∈ d.lines, s.symbol? ≠ some name)
    (hwithin : L.document.AliasesWithin 31 name) :
  (assemble u.program u.symbols options).symbols.resolveRef
      (u.symbols.ref (u.symbols.position name)) options.linked
    = L.table.resolve i []
  := by
  have hvalue := hfirst.value?_eq hlower h hlinked himported hundeclared
  have hfind : options.linked.find? (·.id == L.table.id) = some L.table := by
    have hsome : ((libraries.map Library.table).find? (·.id == L.table.id)).isSome := by
      rw [List.find?_isSome]
      use L.table, List.mem_map_of_mem hfirst.mem, beq_self_eq_true _
    obtain ⟨t, ht⟩ := Option.isSome_iff_exists.mp hsome
    obtain ⟨L', hL', rfl⟩ := List.mem_map.mp (List.mem_of_find?_eq_some ht)
    have hid : L'.table.id = L.table.id := by simpa using List.find?_some ht
    rw [hlinked, ht, hids L' hL' L hfirst.mem hid]
  rw [resolveRef_ref h, SymbolTable.resolve_of_external hvalue hfind,
    hfirst.resolveWithin_eq hwithin]

/-- An imported name stands for its declaration, else for the entry of the first library that
exports it, else for nothing.  Each identifier is given out once, so that it tells tables apart. -/
theorem assemble_importLaw (hlower : d.lower id = .ok u)
    (h : (assemble u.program u.symbols options).outcome = .ok a)
    (hlinked : options.linked = libraries.map Library.table)
    (hids : ∀ L ∈ libraries, ∀ L' ∈ libraries, L.table.id = L'.table.id → L.table = L'.table)
    (himported : d.binding name = .imported) :
  ImportLaw d u a (assemble u.program u.symbols options).symbols libraries name
  := by
  constructor
  case declared =>
    intro k s hs hname
    apply Document.exists_gives hlower h hs hname
  case exported =>
    intro hundeclared L i hfirst
    apply hfirst.value?_eq hlower h hlinked himported hundeclared
  case operands =>
    intro hundeclared L i hfirst hwithin
    have hresolve :=
      hfirst.resolveRef_eq hlower h hlinked hids himported hundeclared hwithin
    constructor
    · intro v hv
      apply Document.operandsHold hlower h (hresolve.trans hv)
    · intro hnone
      apply Document.operandsAwait hlower h (hresolve.trans hnone)
  case number =>
    intro L i b hfirst hb
    obtain ⟨k, s, hs, hname⟩ := hfirst.exists_line
    obtain ⟨value, v?, hgives, hvalue⟩ := Document.exists_gives L.lower_eq hb hs hname
    have hnodup := (Document.lower_eq_ok L.lower_eq).2.1.nodup_names
    rw [SymbolTable.position_eq_of_name? hnodup hfirst.name?_eq] at hvalue
    refine ⟨k, s, value, v?, hs, hname, hgives, hvalue, ?_⟩
    rintro v rfl
    apply SymbolTable.resolveWithin_of_number hvalue hgives.number?_eq
  case unexported =>
    intro hundeclared hnone
    have hexport : options.linked.findSome? (·.export? name) = none := by
      rw [hlinked, List.findSome?_eq_none_iff, List.forall_mem_map]
      intro L hL
      apply SymbolTable.export?_eq_none (hnone L hL)
    have hvalue := Document.value?_of_undeclared hlower h
      (Document.name_mem_of_imported hlower himported) hundeclared
    rw [Document.importValue, if_pos himported, hexport] at hvalue
    use hvalue
    apply Document.operandsAwait hlower h
    rw [resolveRef_ref h, SymbolTable.resolve, SymbolTable.resolveWithin, SymbolTable.denotation,
      hvalue]

end

/-- A document that has a name for itself. -/
def Document.keeper : Document where
  lines := [{ operation := .byte (.decimal 1), symbol? := some "x" }]

/-- The program and the symbols of the document `keeper`. -/
def ProgramUnit.keeper : ProgramUnit where
  program := [{ kind := .data .byte (.literal (.decimal 1)), symbol? := some 0 }]
  symbols := { id := 1, entries := [{ name := "x", state := .single }] }

/-- A document that exports an alias of a label. -/
def Document.giver : Document where
  lines := [
    { operation := .exported "x" },
    { operation := .equate (.symbol "y"), symbol? := some "x" },
    { operation := .block (.decimal 5) },
    { operation := .byte (.decimal 1), symbol? := some "y" }]

/-- The program and the symbols of the document `giver`. -/
def ProgramUnit.giver : ProgramUnit where
  program := [
    { kind := .annotate .exported (.symbolic "x" ⟨2, 0⟩) },
    { kind := .equate (.symbolic "y" ⟨2, 1⟩), symbol? := some 0 },
    { kind := .block (.literal (.decimal 5)) },
    { kind := .data .byte (.literal (.decimal 1)), symbol? := some 1 }]
  symbols := {
    id := 2
    entries := [
      { name := "x", state := .single, binding := .global },
      { name := "y", state := .single }] }

theorem buffers_assemble_keeper :
  (assemble ProgramUnit.keeper.program ProgramUnit.keeper.symbols {}).outcome.map
    (·.object.buffers) = .ok [[1]]
  := by
  cbv

theorem buffers_assemble_giver :
  (assemble ProgramUnit.giver.program ProgramUnit.giver.symbols {}).outcome.map
    (·.object.buffers) = .ok [[0, 0, 0, 0, 0, 1]]
  := by
  cbv

/-- The document `keeper`, assembled. -/
def Library.keeper : Library where
  document := .keeper
  id := 1
  unit := .keeper
  options := {}
  lower_eq := rfl
  linked_eq := rfl
  assembles := (Except.map_eq_ok_iff.mp buffers_assemble_keeper).imp fun _ h => h.1

/-- The document `giver`, assembled. -/
def Library.giver : Library where
  document := .giver
  id := 2
  unit := .giver
  options := {}
  lower_eq := rfl
  linked_eq := rfl
  assembles := (Except.map_eq_ok_iff.mp buffers_assemble_giver).imp fun _ h => h.1

theorem table_keeper :
  Library.keeper.table = {
    id := 1
    entries := [{
      name := "x"
      state := .single
      value := .location (.at 0 1 .object)
      sectionIndex? := some 0 }] }
  := by
  cbv

theorem table_giver :
  Library.giver.table = {
    id := 2
    entries := [
      { name := "x", state := .single, binding := .global, value := .internal 1 },
      { name := "y"
        state := .single
        value := .location (.at 5 1 .object)
        sectionIndex? := some 0 }] }
  := by
  cbv

/-- A document that uses an imported name. -/
def Document.taker : Document where
  lines := [
    { operation := .imported "x" },
    { operation := .word (.symbol "x") }]

/-- The program and the symbols of the document `taker`. -/
def ProgramUnit.taker : ProgramUnit where
  program := [
    { kind := .annotate .imported (.symbolic "x" ⟨0, 0⟩) },
    { kind := .data .word (.symbolic "x" ⟨0, 0⟩) }]
  symbols := { id := 0, entries := [{ name := "x", binding := .imported }] }

/-- The options that link the document `taker` with both libraries. -/
def Options.taker : Options where
  linked := [Library.keeper, Library.giver].map Library.table

theorem buffers_assemble_taker :
  (assemble ProgramUnit.taker.program ProgramUnit.taker.symbols .taker).outcome.map
    (·.object.buffers) = .ok [[0, 5]]
  := by
  cbv

theorem assemble_importLaw_taker :
  Document.taker.lower 0 = .ok .taker ∧ Document.taker.binding "x" = .imported
    ∧ FirstExport [.keeper, .giver] "x" .giver 0
    ∧ ∃ a, (assemble ProgramUnit.taker.program ProgramUnit.taker.symbols .taker).outcome = .ok a
      ∧ a.object.buffers = [[0, 5]]
      ∧ ImportLaw .taker .taker a
        (assemble ProgramUnit.taker.program ProgramUnit.taker.symbols .taker).symbols
        [.keeper, .giver] "x"
  := by
  have hlower : Document.taker.lower 0 = .ok .taker := rfl
  have himported : Document.taker.binding "x" = .imported := by cbv
  obtain ⟨a, ha, hbuffers⟩ := Except.map_eq_ok_iff.mp buffers_assemble_taker
  refine ⟨hlower, himported, ?_, a, ha, hbuffers, ?_⟩
  · constructor
    · use [.keeper], [], rfl
      simp [SymbolTable.Exports, table_keeper]
    · simp [SymbolTable.get?, table_giver]
  · apply assemble_importLaw hlower ha rfl _ himported
    simp [table_keeper, table_giver]

end Pep10
