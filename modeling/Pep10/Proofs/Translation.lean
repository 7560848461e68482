import Pep10.Proofs.Lowering

/-!
# Documents as programs

Lowering goes through the lines of a document and enters names in a table as it meets them.
Positions never change, so what comes out can be said with the table at the end: the program has
the lines of the document, with each name at its position in that table.  The binding of a name is
that of the last line that exports or imports it.
-/

namespace Pep10

/-! ### Names at their positions -/

namespace SymbolTable

/-- The position of a name in a table that has it. -/
def position (t : SymbolTable) (name : String) : SymbolId :=
  t.names.idxOf name

/-- The names of a table are the first ones of another. -/
structure Precedes (t t' : SymbolTable) : Prop where
  id_eq : t'.id = t.id
  names_prefix : t.names <+: t'.names

variable {t t' t'' : SymbolTable} {name : String} {i : SymbolId}

theorem Precedes.refl (t : SymbolTable) :
  t.Precedes t
  := ⟨rfl, List.prefix_rfl⟩

theorem Precedes.trans (h : t.Precedes t') (h' : t'.Precedes t'') :
  t.Precedes t''
  := ⟨h'.id_eq.trans h.id_eq, h.names_prefix.trans h'.names_prefix⟩

theorem Grows.precedes {declared : List String} (h : Grows declared t t') :
  t.Precedes t'
  := ⟨h.id_eq, h.names_prefix⟩

theorem Precedes.name?_eq (h : t.Precedes t') (hi : t.name? i = some name) :
  t'.name? i = some name
  := name?_of_isPrefix h.names_prefix hi

theorem name?_position (h : name ∈ t.names) :
  t.name? (t.position name) = some name
  := by
  rw [name?_eq_getElem?, position, List.getElem?_eq_some_iff]
  use List.idxOf_lt_length_of_mem h
  apply List.getElem_idxOf

theorem name_mem_of_name? (h : t.name? i = some name) :
  name ∈ t.names
  := by
  rw [name?_eq_getElem?] at h
  apply List.mem_of_getElem? h

theorem position_eq_of_name? (hnodup : t.names.Nodup) (h : t.name? i = some name) :
  t.position name = i
  := by
  have hmem := name_mem_of_name? h
  have hposition := name?_position hmem
  rw [name?_eq_getElem?] at h hposition
  apply (List.getElem?_inj (List.idxOf_lt_length_of_mem hmem) hnodup).mp
  rw [h, ← hposition]
  rfl

/-- A name keeps its position. -/
theorem Precedes.position_eq (h : t.Precedes t') (hname : name ∈ t.names) :
  t'.position name = t.position name
  := by
  obtain ⟨rest, hrest⟩ := h.names_prefix
  rw [position, ← hrest, List.idxOf_append_of_mem hname]
  rfl

theorem find?_eq_some_position (h : name ∈ t.names) :
  t.find? name = some (t.position name)
  := by
  rw [find?, position, names, List.idxOf, List.findIdx_map,
    List.findIdx?_eq_some_iff_findIdx_eq]
  constructor
  · apply List.findIdx_lt_length_of_exists
    obtain ⟨e, he, rfl⟩ := List.mem_map.mp h
    use e, he
    simp
  · rfl

theorem find?_eq_none (h : name ∉ t.names) :
  t.find? name = none
  := by
  rw [find?, List.findIdx?_eq_none_iff]
  intro e he
  rw [beq_eq_false_iff_ne]
  rintro rfl
  apply h (List.mem_map_of_mem he)

/-- Mentioning a name gives its position. -/
theorem position_reference (t : SymbolTable) (name : String) :
  (t.reference name).2.position name = (t.reference name).1
  := by
  by_cases hmem : name ∈ t.names
  · rw [reference, find?_eq_some_position hmem]
  · rw [names] at hmem
    rw [reference, find?_eq_none hmem, position, names, List.map_append, List.map_singleton,
      List.idxOf_append_of_notMem hmem, List.idxOf_cons_self, List.length_map]
    rfl

end SymbolTable

/-- The operand of a line, with names at their positions in a table. -/
def Operand.argument (t : SymbolTable) : Operand → Argument
  | .decimal value => .literal (.decimal value)
  | .hexadecimal value => .literal (.hexadecimal value)
  | .character c => .literal (.character (UInt8.ofNat c.toNat))
  | .text value => .literal (.text (utf8Bytes value))
  | .symbol name => .symbolic name (t.ref (t.position name))

/-- What a line says, with names at their positions in a table. -/
def Operation.kind (t : SymbolTable) : Operation → LineKind
  | .blank => .blank
  | .comment => .comment
  | .unary m => .monadic m
  | .nonUnary m o mode => .dyadic m mode (o.argument t)
  | .align o => .align (o.argument t)
  | .ascii text => .data .ascii (.literal (.text (utf8Bytes text)))
  | .byte o => .data .byte (o.argument t)
  | .word o => .data .word (o.argument t)
  | .block o => .block (o.argument t)
  | .equate o => .equate (o.argument t)
  | .opening name flags => .opening ⟨name, (Flags.parse? flags).getD {}⟩
  | .exported name => .annotate .exported (Operand.argument t (.symbol name))
  | .imported name => .annotate .imported (Operand.argument t (.symbol name))
  | .input name => .annotate .input (Operand.argument t (.symbol name))
  | .output name => .annotate .output (Operand.argument t (.symbol name))
  | .systemCall name => .annotate .systemCall (Operand.argument t (.symbol name))
  | .org o => .origin .org (o.argument t)
  | .burn o => .origin .burn (o.argument t)

/-- A line, with names at their positions in a table. -/
def SourceLine.line (t : SymbolTable) (s : SourceLine) : Line where
  kind := s.operation.kind t
  symbol? := s.symbol?.map t.position
  comment? := s.comment?

/-! ### Bindings -/

/-- The binding that a line gives to a name. -/
def Operation.binding? (name : String) : Operation → Option Binding
  | .exported n => if n = name then some .global else none
  | .imported n => if n = name then some .imported else none
  | _ => none

/-- The binding of a name after some lines, when it had one before them. -/
def bindingAfter (lines : List SourceLine) (name : String) (before : Binding) : Binding :=
  ((lines.filterMap (·.operation.binding? name)).getLast?).getD before

/-- The binding of a name in a document. -/
def Document.binding (d : Document) (name : String) : Binding :=
  bindingAfter d.lines name .localOnly

theorem bindingAfter_cons (s : SourceLine) (lines : List SourceLine) (name : String)
    (before : Binding) :
  bindingAfter (s :: lines) name before
    = bindingAfter lines name ((s.operation.binding? name).getD before)
  := by
  rw [bindingAfter, bindingAfter]
  cases hs : s.operation.binding? name with
  | none =>
      rw [List.filterMap_cons_none (f := fun s : SourceLine => s.operation.binding? name) hs]
      rfl
  | some binding =>
      rw [List.filterMap_cons_some (f := fun s : SourceLine => s.operation.binding? name) hs,
        List.getLast?_cons]
      rfl

namespace SymbolTable

variable {t t' : SymbolTable} {name : String} {i : SymbolId} {declared : List String}
  {bindings : String → Binding}

/-- The bindings of the names of a table.  Other names have none. -/
structure Binds (bindings : String → Binding) (t : SymbolTable) : Prop where
  binding_eq : ∀ e ∈ t.entries, e.binding = bindings e.name
  absent : ∀ name, name ∉ t.names → bindings name = .localOnly

theorem Binds.modify (h : Binds bindings t) {f : SymbolEntry → SymbolEntry}
    (hname : ∀ e, (f e).name = e.name) (hbinding : ∀ e, (f e).binding = e.binding) :
  Binds bindings (t.modify i f)
  := by
  constructor
  · intro e' he'
    obtain ⟨j, e, he, rfl⟩ := exists_of_mem_modify he'
    have hbound := h.binding_eq e (List.mem_of_getElem? he)
    split
    · rw [hname, hbinding, hbound]
    · apply hbound
  · rw [names_modify t i hname]
    apply h.absent

/-- Mentioning a name leaves the bindings as they are. -/
theorem Binds.reference (h : Binds bindings t) (name : String) :
  Binds bindings (t.reference name).2
  := by
  rw [SymbolTable.reference]
  split
  · apply h
  · next hnone =>
    have hnew : name ∉ t.names := by
      intro hmem
      rw [find?_eq_some_position hmem] at hnone
      cases hnone
    constructor
    · rw [List.forall_mem_append, List.forall_mem_singleton]
      use h.binding_eq
      apply (h.absent name hnew).symm
    · intro n hn
      apply h.absent n
      intro hmem
      apply hn
      rw [names, List.map_append]
      apply List.mem_append_left _ hmem

theorem Binds.define (h : Binds bindings t) (name : String) :
  Binds bindings (t.define name).2
  := (h.reference name).modify (fun _ => rfl) (fun _ => rfl)

/-- Binding a name changes the binding of that name only. -/
theorem Binds.setBinding (h : Binds bindings t) (hnodup : t.names.Nodup)
    (hi : t.name? i = some name) (binding : Binding) :
  Binds (fun n => if name = n then binding else bindings n) (t.setBinding i binding)
  := by
  have hnames : (t.setBinding i binding).names = t.names := names_modify t i fun _ => rfl
  constructor
  · intro e' he'
    obtain ⟨j, e, he, rfl⟩ := exists_of_mem_modify he'
    have hindex := index_eq_iff hnodup hi he
    by_cases hname : name = e.name
    · simp [hindex.mpr hname, hname]
    · simp only [if_neg (mt hindex.mp hname), if_neg hname]
      apply h.binding_eq e (List.mem_of_getElem? he)
  · intro n hn
    rw [hnames] at hn
    have hne : name ≠ n := by
      rintro rfl
      apply hn (name_mem_of_name? hi)
    rw [if_neg hne]
    apply h.absent n hn

end SymbolTable

/-! ### Lowering -/

namespace Lowering

variable {α β : Type} {x : Lowering α} {k : α → Lowering β} {f : SymbolTable → α} {g : α → β}
  {rebind : String → Option Binding}

/-- Whatever the table is, it is left as it is, and the result is the one given. -/
def Leaves (x : Lowering β) (b : β) : Prop :=
  ∀ t t' b', x.run t = .ok (b', t') → t' = t ∧ b' = b

theorem leaves_pure (b : β) :
  Leaves (pure b) b
  := by
  intro t t' b' hrun
  cases hrun
  exact ⟨rfl, rfl⟩

theorem leaves_throw (e : DocumentError) (b : β) :
  Leaves (throw e) b
  := by
  intro t t' b' hrun
  cases hrun

/-- A computation whose result is that of a function of any later table, and which binds some
names. -/
structure Translates (x : Lowering α) (rebind : String → Option Binding) (f : SymbolTable → α) :
    Prop where
  result : ∀ {t t' a}, x.run t = .ok (a, t') → ∀ T, t'.Precedes T → a = f T
  binds : ∀ {t t' a}, x.run t = .ok (a, t') → ∀ declared, t.Records declared →
    ∀ bindings, t.Binds bindings → t'.Binds fun name => (rebind name).getD (bindings name)

theorem translates_pure (a : α) :
  Translates (pure a) (fun _ => none) fun _ => a
  := by
  constructor
  · intro t t' a' hrun T _
    cases hrun
    rfl
  · intro t t' a' hrun _ _ bindings hbinds
    cases hrun
    apply hbinds

theorem translates_throw (e : DocumentError) (rebind : String → Option Binding)
    (f : SymbolTable → α) :
  Translates (throw e) rebind f
  := by
  constructor
  · intro t t' a hrun
    cases hrun
  · intro t t' a hrun
    cases hrun

theorem Translates.bind (hx : Translates x rebind f) (hk : ∀ a, Leaves (k a) (g a)) :
  Translates (x >>= k) rebind (g ∘ f)
  := by
  constructor
  · intro t t' b hrun T hT
    obtain ⟨a, u, hxu, hku⟩ := run_bind_eq_ok_iff.mp hrun
    obtain ⟨rfl, rfl⟩ := hk a _ _ _ hku
    rw [Function.comp_apply, hx.result hxu T hT]
  · intro t t' b hrun
    obtain ⟨a, u, hxu, hku⟩ := run_bind_eq_ok_iff.mp hrun
    obtain ⟨rfl, rfl⟩ := hk a _ _ _ hku
    apply hx.binds hxu

theorem Translates.map (hx : Translates x rebind f) (g : α → β) :
  Translates (x >>= fun a => pure (g a)) rebind (g ∘ f)
  := hx.bind fun a => leaves_pure (g a)

/-- A name that is mentioned has a position from then on. -/
theorem argument_symbol_eq {t T : SymbolTable} {name : String}
    (hT : (t.reference name).2.Precedes T) :
  Argument.symbolic name ((t.reference name).2.ref (t.reference name).1)
    = Operand.argument T (.symbol name)
  := by
  have hmem := SymbolTable.name_mem_of_name? (t.grows_reference name).2
  rw [Operand.argument, SymbolTable.ref, SymbolTable.ref, hT.id_eq, hT.position_eq hmem,
    SymbolTable.position_reference]

theorem translates_reference (name : String) :
  Translates (reference name) (fun _ => none) fun T => Operand.argument T (.symbol name)
  := by
  constructor
  · intro t t' a hrun T hT
    cases hrun
    apply argument_symbol_eq hT
  · intro t t' a hrun _ _ bindings hbinds
    cases hrun
    apply hbinds.reference

theorem translates_annotate (name : String) (binding : Binding) :
  Translates (annotate name binding) (fun n => if name = n then some binding else none)
    fun T => Operand.argument T (.symbol name)
  := by
  constructor
  · intro t t' a hrun T hT
    cases hrun
    apply argument_symbol_eq
    apply SymbolTable.Precedes.trans _ hT
    apply (SymbolTable.grows_setBinding _ _ binding).precedes
  · intro t t' a hrun declared hrecords bindings hbinds
    cases hrun
    obtain ⟨hgrows, hi⟩ := t.grows_reference name
    have hnodup := (hgrows.records declared hrecords).nodup_names
    have hrebind : (fun n => ((if name = n then some binding else none).getD (bindings n)))
        = fun n => if name = n then binding else bindings n := by
      funext n
      split
      · rfl
      · rfl
    rw [hrebind]
    apply (hbinds.reference name).setBinding hnodup hi

end Lowering

theorem Operand.translates_lower (number : Nat) (o : Operand) :
  Lowering.Translates (o.lower number) (fun _ => none) o.argument
  := by
  cases o with
  | decimal value => apply Lowering.translates_pure
  | hexadecimal value => apply Lowering.translates_pure
  | character c =>
      rw [lower]
      split
      · apply Lowering.translates_pure
      · apply Lowering.translates_throw
  | text value => apply Lowering.translates_pure
  | symbol name => apply Lowering.translates_reference

/-- What a line says is read with the positions that names have in the end. -/
theorem Operation.translates_lower (number : Nat) (op : Operation) :
  Lowering.Translates (op.lower number) op.binding? op.kind
  := by
  cases op with
  | blank => apply Lowering.translates_pure
  | comment => apply Lowering.translates_pure
  | unary m =>
      rw [lower]
      split
      · apply Lowering.translates_pure
      · apply Lowering.translates_throw
  | nonUnary m o mode =>
      rw [lower]
      split
      · apply Lowering.translates_throw
      · apply (o.translates_lower number).map
  | align o =>
      apply (o.translates_lower number).bind
      intro a
      split
      · apply Lowering.leaves_pure
      · apply Lowering.leaves_throw
  | ascii text => apply Lowering.translates_pure
  | byte o => apply (o.translates_lower number).map
  | word o => apply (o.translates_lower number).map
  | block o =>
      apply (o.translates_lower number).bind
      intro a
      split
      · apply Lowering.leaves_pure
      · apply Lowering.leaves_throw
  | equate o => apply (o.translates_lower number).map
  | opening name flags =>
      rw [lower]
      split
      · next parsed hparsed =>
        have hkind : (Operation.opening name flags).kind
            = fun _ => LineKind.opening ⟨name, parsed⟩ := by
          funext t
          rw [kind, hparsed, Option.getD_some]
        rw [hkind]
        apply Lowering.translates_pure
      · apply Lowering.translates_throw
  | exported name => apply (Lowering.translates_annotate name .global).map
  | imported name => apply (Lowering.translates_annotate name .imported).map
  | input name => apply (Lowering.translates_reference name).map
  | output name => apply (Lowering.translates_reference name).map
  | systemCall name => apply (Lowering.translates_reference name).map
  | org o => apply (o.translates_lower number).map
  | burn o => apply (o.translates_lower number).map

/-- Declaring a name gives its position. -/
theorem SymbolTable.position_define (t : SymbolTable) (name : String) :
  (t.define name).2.position name = (t.define name).1
  := by
  have hnames : (t.define name).2.names = (t.reference name).2.names :=
    names_modify _ _ fun _ => rfl
  rw [position, hnames, ← position, position_reference]
  rfl

/-- A line is read with the positions that names have in the end, and its annotation binds. -/
theorem SourceLine.translates_lower (number : Nat) (s : SourceLine) :
  Lowering.Translates (s.lower number) s.operation.binding? s.line
  := by
  have hop := s.operation.translates_lower number
  constructor
  · intro t t' l hrun T hT
    obtain ⟨kind, u, hkind, hrun⟩ := Lowering.run_bind_eq_ok_iff.mp hrun
    obtain ⟨symbol?, u', hsymbol, hrun⟩ := Lowering.run_bind_eq_ok_iff.mp hrun
    cases hrun
    cases hs : s.symbol? with
    | none =>
        rw [hs] at hsymbol
        cases hsymbol
        rw [line, hs, hop.result hkind T hT, Option.map_none]
    | some name =>
        rw [hs] at hsymbol
        cases hsymbol
        obtain ⟨hgrows, hi⟩ := u.grows_define name
        have hposition : T.position name = (u.define name).1 := by
          rw [SymbolTable.Precedes.position_eq (t := (u.define name).2) hT
            (SymbolTable.name_mem_of_name? hi), u.position_define]
        rw [line, hs, hop.result hkind T (hgrows.precedes.trans hT), Option.map_some, hposition]
        rfl
  · intro t t' l hrun declared hrecords bindings hbinds
    obtain ⟨kind, u, hkind, hrun⟩ := Lowering.run_bind_eq_ok_iff.mp hrun
    obtain ⟨symbol?, u', hsymbol, hrun⟩ := Lowering.run_bind_eq_ok_iff.mp hrun
    cases hrun
    have hbound := hop.binds hkind declared hrecords bindings hbinds
    cases hs : s.symbol? with
    | none =>
        rw [hs] at hsymbol
        cases hsymbol
        apply hbound
    | some name =>
        rw [hs] at hsymbol
        cases hsymbol
        apply hbound.define

/-- So are all the lines. -/
theorem translates_lowerLines (number : Nat) (lines : List SourceLine) :
  (∀ {t t' program}, (lowerLines number lines).run t = .ok (program, t') →
      ∀ T, t'.Precedes T → program = lines.map (·.line T))
    ∧ ∀ {t t' program}, (lowerLines number lines).run t = .ok (program, t') →
      ∀ declared, t.Records declared → ∀ bindings, t.Binds bindings →
        t'.Binds fun name => bindingAfter lines name (bindings name)
  := by
  induction lines generalizing number with
  | nil =>
      constructor
      · intro t t' program hrun T hT
        cases hrun
        rfl
      · intro t t' program hrun declared _ bindings hbinds
        cases hrun
        apply hbinds
  | cons s lines ih =>
      constructor
      · intro t t' program hrun T hT
        obtain ⟨l, u, hl, hrun⟩ := Lowering.run_bind_eq_ok_iff.mp hrun
        obtain ⟨rest, u', hrest, hrun⟩ := Lowering.run_bind_eq_ok_iff.mp hrun
        cases hrun
        have hprecedes := (lowerLines_eq_ok hrest).1.precedes
        rw [List.map_cons, (s.translates_lower number).result hl T (hprecedes.trans hT),
          (ih (number + 1)).1 hrest T hT]
      · intro t t' program hrun declared hrecords bindings hbinds
        obtain ⟨l, u, hl, hrun⟩ := Lowering.run_bind_eq_ok_iff.mp hrun
        obtain ⟨rest, u', hrest, hrun⟩ := Lowering.run_bind_eq_ok_iff.mp hrun
        cases hrun
        have hbound := (s.translates_lower number).binds hl declared hrecords bindings hbinds
        have hrecords' := (SourceLine.lower_eq_ok hl).1.records declared hrecords
        simp only [bindingAfter_cons]
        apply (ih (number + 1)).2 hrest _ hrecords' _ hbound

namespace Document

variable {d : Document} {id : TableId} {u : ProgramUnit}

/-- A document becomes the program of its lines, with names at their positions. -/
theorem program_of_lower (h : d.lower id = .ok u) :
  u.program = d.lines.map (·.line u.symbols)
  := by
  obtain ⟨⟨program, symbols⟩, hrun, h⟩ := Except.bind_eq_ok_iff.mp h
  cases h
  apply (translates_lowerLines 1 d.lines).1 hrun _ (SymbolTable.Precedes.refl _)

/-- The lines of the program are numbered by their positions in the document. -/
theorem mem_numbered (h : d.lower id = .ok u) {k : LineId} {s : SourceLine}
    (hs : d.lines[k]? = some s) :
  ⟨k, s.line u.symbols⟩ ∈ u.program.numbered
  := by
  apply List.mem_map.mpr
  use (s.line u.symbols, k)
  constructor
  · rw [List.mem_zipIdx_iff_getElem?, program_of_lower h, List.getElem?_map, hs]
    rfl
  · rfl

/-- The bindings of the symbols are those of the document. -/
theorem binds_of_lower (h : d.lower id = .ok u) :
  u.symbols.Binds d.binding
  := by
  obtain ⟨⟨program, symbols⟩, hrun, h⟩ := Except.bind_eq_ok_iff.mp h
  cases h
  have hempty : SymbolTable.Binds (fun _ => .localOnly) { id } := by
    constructor
    all_goals simp
  have hrecords : SymbolTable.Records [] { id } := by
    constructor
    all_goals simp [SymbolTable.names]
  apply (translates_lowerLines 1 d.lines).2 hrun [] hrecords _ hempty

end Document

end Pep10
