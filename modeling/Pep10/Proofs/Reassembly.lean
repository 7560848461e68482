import Pep10.Assembly
import Pep10.Proofs.Definition

/-!
# Assembling again

An assembly reads the symbol table that it writes.  It looks at the names, states and bindings of
the entries, which it leaves as they are, and at which imports have no value.  It writes the values
of imports and of declared symbols, and none of these is empty.  So a second assembly from the
table that the first one left finds nothing to bind, lays out the same sections, enters the same
definitions over themselves and resolves operands in the same table.
-/

namespace Pep10

/-! ### Entries -/

theorem SymbolValue.isEmpty_iff {value : SymbolValue} :
  value.isEmpty ↔ value = .empty
  := by
  cases value with
  | empty => simp [isEmpty]
  | _ => simp [isEmpty]

namespace SymbolEntry

variable {linked : List SymbolTable} {ds : List Definition}

/-- The part of an entry that an assembly leaves as it is. -/
def head (e : SymbolEntry) : String × DefinitionState × Binding :=
  (e.name, e.state, e.binding)

/-- Everything that binding an import can do. -/
theorem bindImport_cases (e : SymbolEntry) (linked : List SymbolTable) :
  e.bindImport linked = e
    ∨ e.binding = .imported ∧ e.value = .empty
      ∧ ∃ other ∈ linked, ∃ target, other.export? e.name = some target
        ∧ e.bindImport linked = { e with value := .external target }
  := by
  by_cases h : e.binding = .imported && e.value.isEmpty
  · rw [bindImport, if_pos h]
    cases htarget : linked.findSome? (·.export? e.name) with
    | none =>
        left
        rfl
    | some target =>
        right
        rw [Bool.and_eq_true, decide_eq_true_eq] at h
        obtain ⟨other, hother, hexport⟩ := List.exists_of_findSome?_eq_some htarget
        use h.1, SymbolValue.isEmpty_iff.mp h.2, other, hother, target, hexport
  · left
    rw [bindImport, if_neg h]

theorem head_bindImport (e : SymbolEntry) (linked : List SymbolTable) :
  (e.bindImport linked).head = e.head
  := by
  rcases e.bindImport_cases linked with hbind | ⟨-, -, other, -, target, -, hbind⟩
  · rw [hbind]
  · rw [hbind]
    rfl

theorem state_bindImport (e : SymbolEntry) (linked : List SymbolTable) :
  (e.bindImport linked).state = e.state
  := congrArg (·.2.1) (head_bindImport e linked)

/-- Of several definitions the last one counts, and of several sections the last one. -/
theorem foldl_define (e : SymbolEntry) (ds : List Definition) :
  ds.foldl define e
    = { e with
        value := (ds.getLast?.map (·.value)).getD e.value
        sectionIndex? := (ds.reverse.findSome? (·.sectionIndex?)).or e.sectionIndex? }
  := by
  induction ds using List.reverseRecOn with
  | nil => rfl
  | append_singleton ds d ih =>
      rw [List.foldl_append, List.foldl_cons, List.foldl_nil, ih, define, List.getLast?_concat,
        List.reverse_concat, List.findSome?_cons]
      cases d.sectionIndex? with
      | none => rfl
      | some index => rfl

theorem head_foldl_define (e : SymbolEntry) (ds : List Definition) :
  (ds.foldl define e).head = e.head
  := by
  rw [foldl_define]
  rfl

theorem foldl_define_foldl_define (e : SymbolEntry) (ds : List Definition) :
  ds.foldl define (ds.foldl define e) = ds.foldl define e
  := by
  simp only [foldl_define, ← Option.or_assoc, Option.or_self]
  cases ds.getLast? with
  | none => rfl
  | some d => rfl

theorem bindImport_of_ne_empty {e : SymbolEntry} (h : e.value ≠ .empty) :
  e.bindImport linked = e
  := by
  rcases e.bindImport_cases linked with hbind | ⟨-, hempty, -⟩
  · exact hbind
  · cases h hempty

/-- An import that was bound is not bound again, and one that was not finds no export either. -/
theorem bindImport_bindImport (e : SymbolEntry) (linked : List SymbolTable) :
  (e.bindImport linked).bindImport linked = e.bindImport linked
  := by
  rcases e.bindImport_cases linked with hbind | ⟨-, -, other, -, target, -, hbind⟩
  · rw [hbind, hbind]
  · apply bindImport_of_ne_empty
    rw [hbind]
    nofun

/-- After definitions of its symbol, an entry is as good as bound. -/
theorem bindImport_foldl_define (e : SymbolEntry) (hds : ∀ d ∈ ds, d.value ≠ .empty) :
  (ds.foldl define (e.bindImport linked)).bindImport linked
    = ds.foldl define (e.bindImport linked)
  := by
  cases hlast : ds.getLast? with
  | none =>
      rw [List.getLast?_eq_none_iff.mp hlast]
      apply bindImport_bindImport
  | some d =>
      apply bindImport_of_ne_empty
      rw [foldl_define, hlast]
      apply hds d (List.mem_of_getLast? hlast)

end SymbolEntry

/-! ### Tables -/

namespace SymbolTable

variable {t t' : SymbolTable} {linked : List SymbolTable} {ds : List Definition}

theorem ext_get? (hid : t.id = t'.id) (hget : ∀ i, t.get? i = t'.get? i) :
  t = t'
  := by
  obtain ⟨id, entries⟩ := t
  obtain ⟨id', entries'⟩ := t'
  obtain rfl := hid
  congr 1
  apply List.ext_getElem? hget

theorem get?_bindImports (t : SymbolTable) (linked : List SymbolTable) (i : SymbolId) :
  (t.bindImports linked).get? i = (t.get? i).map (·.bindImport linked)
  := List.getElem?_map

/-- Entering definitions a second time changes nothing. -/
theorem foldl_enter_foldl_enter (t : SymbolTable) (ds : List Definition) :
  ds.foldl enter (ds.foldl enter t) = ds.foldl enter t
  := by
  apply ext_get?
  · apply id_foldl_enter
  · intro i
    simp only [get?_foldl_enter, Option.map_map, Function.comp_def,
      SymbolEntry.foldl_define_foldl_define]

/-- After definitions there are no imports to be bound that were not bound before. -/
theorem bindImports_foldl_enter (t : SymbolTable) (hds : ∀ d ∈ ds, d.value ≠ .empty) :
  (ds.foldl enter (t.bindImports linked)).bindImports linked
    = ds.foldl enter (t.bindImports linked)
  := by
  have hfilter : ∀ i, ∀ d ∈ ds.filter (·.symbol = i), d.value ≠ .empty :=
    fun i d hd => hds d (List.mem_filter.mp hd).1
  apply ext_get?
  · rfl
  · intro i
    simp only [get?_bindImports, get?_foldl_enter, Option.map_map, Function.comp_def,
      SymbolEntry.bindImport_foldl_define _ (hfilter i)]

/-- The table that an assembly leaves has the heads it had. -/
theorem head_foldl_enter (t : SymbolTable) (linked : List SymbolTable) (ds : List Definition)
    (i : SymbolId) :
  ((ds.foldl enter (t.bindImports linked)).get? i).map SymbolEntry.head
    = (t.get? i).map SymbolEntry.head
  := by
  simp only [get?_foldl_enter, get?_bindImports, Option.map_map, Function.comp_def,
    SymbolEntry.head_foldl_define, SymbolEntry.head_bindImport]

end SymbolTable

/-! ### Splitting -/

section

variable {t t' : SymbolTable}

/-- Only the heads of entries matter to a label. -/
theorem checkLabel_congr
    (h : ∀ i, (t.get? i).map SymbolEntry.head = (t'.get? i).map SymbolEntry.head)
    (l : NumberedLine) :
  Split.checkLabel t l = Split.checkLabel t' l
  := by
  rw [Split.checkLabel, Split.checkLabel]
  cases l.line.symbol? with
  | none => rfl
  | some i =>
      have hi := h i
      cases he : t.get? i with
      | none =>
          rw [he, Option.map_none, eq_comm, Option.map_eq_none_iff] at hi
          simp only [he, hi]
      | some e =>
          rw [he, Option.map_some, eq_comm, Option.map_eq_some_iff] at hi
          obtain ⟨e', he', hhead⟩ := hi
          obtain ⟨hname, hstate, -⟩ : e'.name = e.name ∧ e'.state = e.state
              ∧ e'.binding = e.binding := by
            simpa [SymbolEntry.head] using hhead
          have hsingle : e'.isSingle = e.isSingle := by rw [SymbolEntry.isSingle, hstate]; rfl
          simp only [he, he', hsingle, hname]

theorem Program.sections_congr
    (h : ∀ i, (t.get? i).map SymbolEntry.head = (t'.get? i).map SymbolEntry.head)
    (program : Program) (initial : Heading) :
  program.sections t initial = program.sections t' initial
  := by
  have hstep : Split.step t = Split.step t' := by
    funext s l
    rw [Split.step, Split.step, checkLabel_congr h]
  rw [Program.sections, Program.sections, Program.split, Program.split, hstep]

/-- Imports have nothing to do with the split. -/
theorem Program.sections_bindImports (program : Program) (t : SymbolTable)
    (linked : List SymbolTable) (initial : Heading) :
  program.sections (t.bindImports linked) initial = program.sections t initial
  := by
  apply sections_congr
  intro i
  rw [SymbolTable.get?_bindImports, Option.map_map]
  simp only [Function.comp_def, SymbolEntry.head_bindImport]

end

/-! ### Assemblies -/

/-- The definitions that an assembly enters, until it succeeds or fails. -/
def definitionsOf (program : Program) (symbols : SymbolTable) (options : Options) :
    List Definition :=
  match program.sections (symbols.bindImports options.linked) options.initial with
  | .error _ => []
  | .ok sections =>
    (assign symbols.id sections options.base).placements.filterMap (·.definition?)

section

variable (program : Program) (symbols : SymbolTable) (options : Options)

theorem symbols_assemble_eq_foldl :
  (assemble program symbols options).symbols
    = (definitionsOf program symbols options).foldl SymbolTable.enter
      (symbols.bindImports options.linked)
  := by
  cases h : program.sections (symbols.bindImports options.linked) options.initial with
  | error e => rw [assemble, Program.split_eq, definitionsOf, h]; rfl
  | ok sections => rw [assemble, Program.split_eq, definitionsOf, h]; rfl

theorem value_ne_empty_of_mem_definitionsOf :
  ∀ d ∈ definitionsOf program symbols options, d.value ≠ .empty
  := by
  intro d hd
  rw [definitionsOf] at hd
  split at hd
  · cases hd
  · obtain ⟨place, hplace⟩ | ⟨_, _, _, hvalue⟩ := value_of_mem_definitions hd
    · rw [hplace]
      nofun
    · apply equateValue_ne_empty hvalue

theorem head_of_assemble (i : SymbolId) :
  ((assemble program symbols options).symbols.get? i).map SymbolEntry.head
    = (symbols.get? i).map SymbolEntry.head
  := by
  rw [symbols_assemble_eq_foldl]
  apply SymbolTable.head_foldl_enter

/-- An assembly leaves nothing to bind. -/
theorem bindImports_symbols_assemble :
  (assemble program symbols options).symbols.bindImports options.linked
    = (assemble program symbols options).symbols
  := by
  rw [symbols_assemble_eq_foldl]
  apply SymbolTable.bindImports_foldl_enter _ (value_ne_empty_of_mem_definitionsOf _ _ _)

/-- The table that an assembly leaves splits every program as the table it started from. -/
theorem sections_symbols_assemble (program' : Program) (initial : Heading) :
  program'.sections (assemble program symbols options).symbols initial
    = program'.sections (symbols.bindImports options.linked) initial
  := by
  rw [Program.sections_bindImports]
  apply Program.sections_congr (head_of_assemble program symbols options)

end

/-- An assembly depends on the table it starts from through the split, and through the table that
the definitions leave. -/
theorem assemble_congr {program : Program} {t t' : SymbolTable} {options : Options}
    (hid : t'.id = t.id)
    (hsplit : program.sections (t'.bindImports options.linked) options.initial
      = program.sections (t.bindImports options.linked) options.initial)
    (hsymbols : (definitionsOf program t options).foldl SymbolTable.enter
        (t'.bindImports options.linked)
      = (definitionsOf program t options).foldl SymbolTable.enter (t.bindImports options.linked)) :
  assemble program t' options = assemble program t options
  := by
  have hbound : (t'.bindImports options.linked).id = (t.bindImports options.linked).id := hid
  cases h : program.sections (t.bindImports options.linked) options.initial with
  | error e =>
      have htable : t'.bindImports options.linked = t.bindImports options.linked := by
        rw [definitionsOf, h] at hsymbols
        exact hsymbols
      rw [assemble, assemble, htable]
  | ok sections =>
      have henter : (assign (t.bindImports options.linked).id sections options.base).enterInto
            (t'.bindImports options.linked)
          = (assign (t.bindImports options.linked).id sections options.base).enterInto
            (t.bindImports options.linked) := by
        rw [definitionsOf, h] at hsymbols
        exact hsymbols
      rw [assemble, assemble, Program.split_eq, Program.split_eq, hsplit, h]
      simp only [Except.map, hbound, henter]

/-- Assembling a program again, from the table that its assembly left, yields the same outcome and
leaves the same table. -/
theorem assemble_assemble (program : Program) (symbols : SymbolTable) (options : Options) :
  assemble program (assemble program symbols options).symbols options
    = assemble program symbols options
  := by
  have hbind := bindImports_symbols_assemble program symbols options
  have htable := symbols_assemble_eq_foldl program symbols options
  apply assemble_congr
  · rw [htable]
    apply SymbolTable.id_foldl_enter
  · rw [hbind]
    apply sections_symbols_assemble
  · rw [hbind, htable]
    apply SymbolTable.foldl_enter_foldl_enter

end Pep10
