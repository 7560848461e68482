import Pep10.Document.Lowering
import Pep10.Proofs.Layout.Walk
import Mathlib.Data.List.Nodup

/-!
# The symbols of a document

Lowering a document counts how often each of its names is declared.  Entries are never moved, so
the position that a line gets for its name stays that of the name, and the table at the end says
which names are declared once.
-/

namespace Pep10

/-! ### Counting definitions -/

/-- The state of a name that was defined `n` times. -/
def DefinitionState.ofCount : Nat → DefinitionState
  | 0 => .undefined
  | 1 => .single
  | _ => .multiple

theorem DefinitionState.next_ofCount (n : Nat) :
  (ofCount n).next = ofCount (n + 1)
  := by
  cases n with
  | zero => rfl
  | succ n =>
      cases n with
      | zero => rfl
      | succ n => rfl

theorem DefinitionState.ofCount_eq_single_iff {n : Nat} :
  ofCount n = .single ↔ n = 1
  := by
  cases n with
  | zero => simp [ofCount]
  | succ n =>
      cases n with
      | zero => simp [ofCount]
      | succ n => simp [ofCount]

namespace SymbolTable

/-- The names of a table. -/
def names (t : SymbolTable) : List String :=
  t.entries.map (·.name)

/-- The states of a table count how often each name is listed. -/
def Counts (declared : List String) (t : SymbolTable) : Prop :=
  ∀ e ∈ t.entries, e.state = .ofCount (declared.count e.name)

/-- A table in which names were declared as often as they are listed, and nothing has a value. -/
structure Records (declared : List String) (t : SymbolTable) : Prop where
  nodup_names : t.names.Nodup
  state_eq : ∀ e ∈ t.entries, e.state = .ofCount (declared.count e.name)
  value_eq : ∀ e ∈ t.entries, e.value = .empty
  mem_names : ∀ name ∈ declared, name ∈ t.names

/-- A table after more names were mentioned in it, some of them declared. -/
structure Grows (declared : List String) (t t' : SymbolTable) : Prop where
  id_eq : t'.id = t.id
  names_prefix : t.names <+: t'.names
  records : ∀ before, Records before t → Records (before ++ declared) t'

variable {t t' t'' : SymbolTable} {declared more : List String} {name : String} {i : SymbolId}

theorem Grows.refl (t : SymbolTable) :
  Grows [] t t
  where
  id_eq := rfl
  names_prefix := List.prefix_rfl
  records _ h := by simpa using h

theorem Grows.trans (h : Grows declared t t') (h' : Grows more t' t'') :
  Grows (declared ++ more) t t''
  where
  id_eq := h'.id_eq.trans h.id_eq
  names_prefix := h.names_prefix.trans h'.names_prefix
  records before hbefore := by
    rw [← List.append_assoc]
    apply h'.records _ (h.records before hbefore)

theorem name?_eq_getElem? (t : SymbolTable) (i : SymbolId) :
  t.name? i = t.names[i]?
  := by
  rw [name?, get?, names, List.getElem?_map]

/-- More names at the end leave the others where they are. -/
theorem name?_of_isPrefix (h : t.names <+: t'.names) (hi : t.name? i = some name) :
  t'.name? i = some name
  := by
  rw [name?_eq_getElem?] at hi ⊢
  obtain ⟨rest, hrest⟩ := h
  rw [← hrest, List.getElem?_append_left (List.getElem?_eq_some_iff.mp hi).1, hi]

theorem Grows.name?_eq (h : Grows declared t t') (hi : t.name? i = some name) :
  t'.name? i = some name
  := name?_of_isPrefix h.names_prefix hi

/-- Changing an entry, but not its name, leaves the names as they are. -/
theorem names_modify (t : SymbolTable) (i : SymbolId) {f : SymbolEntry → SymbolEntry}
    (hf : ∀ e, (f e).name = e.name) :
  (t.modify i f).names = t.names
  := by
  apply List.ext_getElem?
  intro j
  simp only [names, modify, List.getElem?_map, List.getElem?_modify]
  cases t.entries[j]? with
  | none => rfl
  | some e =>
      by_cases h : i = j
      · simp [h, hf]
      · simp [h]

/-- The entries after one of them was changed. -/
theorem exists_of_mem_modify {f : SymbolEntry → SymbolEntry} {e' : SymbolEntry}
    (h : e' ∈ (t.modify i f).entries) :
  ∃ j e, t.entries[j]? = some e ∧ e' = if i = j then f e else e
  := by
  obtain ⟨j, hj⟩ := List.mem_iff_getElem?.mp h
  rw [modify, List.getElem?_modify] at hj
  obtain ⟨e, he, rfl⟩ := Option.map_eq_some_iff.mp hj
  use j, e, he

/-- A position is known by its name when no name is there twice. -/
theorem index_eq_iff (hnodup : t.names.Nodup) (hi : t.name? i = some name) {j : SymbolId}
    {e : SymbolEntry} (he : t.entries[j]? = some e) :
  i = j ↔ name = e.name
  := by
  have hj : t.name? j = some e.name := by rw [name?, get?, he, Option.map_some]
  rw [name?_eq_getElem?] at hi hj
  constructor
  · rintro rfl
    apply Option.some_inj.mp (hi.symm.trans hj)
  · rintro rfl
    apply (List.getElem?_inj (List.getElem?_eq_some_iff.mp hi).1 hnodup).mp
    rw [hi, hj]

theorem names_add (t : SymbolTable) (name : String) :
  ({ t with entries := t.entries ++ [{ name }] } : SymbolTable).names = t.names ++ [name]
  := by
  rw [names, List.map_append, List.map_singleton]
  rfl

theorem nodup_names_add (hnodup : t.names.Nodup) (hname : name ∉ t.names) :
  (t.names ++ [name]).Nodup
  := by
  rw [List.nodup_append]
  refine ⟨hnodup, List.nodup_singleton _, ?_⟩
  intro a ha b hb
  rw [List.mem_singleton.mp hb]
  apply ne_of_mem_of_not_mem ha hname

/-- A new entry has not been declared. -/
theorem Counts.add (h : Counts declared t) (hname : name ∉ declared) :
  Counts declared { t with entries := t.entries ++ [{ name }] }
  := by
  rw [Counts, List.forall_mem_append, List.forall_mem_singleton]
  use h
  rw [List.count_eq_zero_of_not_mem hname]
  rfl

/-- Changing an entry, but neither its name nor its state, does not count. -/
theorem Counts.modify (h : Counts declared t) {f : SymbolEntry → SymbolEntry}
    (hname : ∀ e, (f e).name = e.name) (hstate : ∀ e, (f e).state = e.state) :
  Counts declared (t.modify i f)
  := by
  intro e' he'
  obtain ⟨j, e, he, rfl⟩ := exists_of_mem_modify he'
  have hcount := h e (List.mem_of_getElem? he)
  split
  · rw [hname, hstate, hcount]
  · apply hcount

/-- The next state of an entry counts one more declaration of its name. -/
theorem Counts.next (h : Counts declared t) (hnodup : t.names.Nodup)
    (hi : t.name? i = some name) :
  Counts (declared ++ [name]) (t.modify i fun e => { e with state := e.state.next })
  := by
  intro e' he'
  obtain ⟨j, e, he, rfl⟩ := exists_of_mem_modify he'
  have hstate := h e (List.mem_of_getElem? he)
  have hindex := index_eq_iff hnodup hi he
  split
  · next hij =>
    rw [hindex.mp hij, hstate, DefinitionState.next_ofCount, List.count_append,
      List.count_singleton_self]
  · next hij =>
    rw [hstate, List.count_append, List.count_singleton, beq_false_of_ne]
    · rfl
    · intro hname
      apply hij (hindex.mpr hname)

theorem Records.add (h : Records declared t) (hname : name ∉ t.names) :
  Records declared { t with entries := t.entries ++ [{ name }] }
  where
  nodup_names := by
    rw [names_add]
    apply nodup_names_add h.nodup_names hname
  state_eq := Counts.add h.state_eq fun hmem => hname (h.mem_names name hmem)
  value_eq := by
    rw [List.forall_mem_append, List.forall_mem_singleton]
    use h.value_eq
  mem_names := by
    intro n hn
    rw [names_add]
    apply List.mem_append_left _ (h.mem_names n hn)

/-- A new name goes to the end of a table, any other stays where it is. -/
theorem grows_reference (t : SymbolTable) (name : String) :
  Grows [] t (t.reference name).2 ∧ (t.reference name).2.name? (t.reference name).1 = some name
  := by
  cases hfind : t.find? name with
  | some i =>
      have href : t.reference name = (i, t) := by rw [reference, hfind]
      obtain ⟨hi, hname, -⟩ := List.findIdx?_eq_some_iff_getElem.mp hfind
      rw [href]
      use Grows.refl t
      simpa [name?, get?, List.getElem?_eq_getElem hi] using hname
  | none =>
      have href : t.reference name = (t.size, { t with entries := t.entries ++ [{ name }] }) := by
        rw [reference, hfind]
      have hnew : name ∉ t.names := by
        intro hmem
        obtain ⟨e, he, rfl⟩ := List.mem_map.mp hmem
        simpa using List.findIdx?_eq_none_iff.mp hfind e he
      rw [href]
      constructor
      · refine { id_eq := rfl, names_prefix := ?_, records := ?_ }
        · rw [names, names, List.map_append]
          apply List.prefix_append
        · intro before h
          rw [List.append_nil]
          apply h.add hnew
      · simp [name?, get?, size]

theorem Records.value_eq_modify (h : Records declared t) {f : SymbolEntry → SymbolEntry}
    (hvalue : ∀ e, (f e).value = e.value) :
  ∀ e ∈ (t.modify i f).entries, e.value = .empty
  := by
  intro e' he'
  obtain ⟨j, e, he, rfl⟩ := exists_of_mem_modify he'
  have hempty := h.value_eq e (List.mem_of_getElem? he)
  split
  · rw [hvalue, hempty]
  · apply hempty

/-- Giving an entry a binding does not count as a declaration. -/
theorem grows_setBinding (t : SymbolTable) (i : SymbolId) (binding : Binding) :
  Grows [] t (t.setBinding i binding)
  := by
  have hnames : (t.setBinding i binding).names = t.names := names_modify t i fun _ => rfl
  refine { id_eq := rfl, names_prefix := hnames ▸ List.prefix_rfl, records := ?_ }
  intro before h
  rw [List.append_nil]
  exact {
    nodup_names := hnames ▸ h.nodup_names
    state_eq := Counts.modify h.state_eq (fun _ => rfl) fun _ => rfl
    value_eq := h.value_eq_modify fun _ => rfl
    mem_names := hnames ▸ h.mem_names }

/-- The next state of an entry counts one more declaration of its name. -/
theorem grows_next (hi : t.name? i = some name) :
  Grows [name] t (t.modify i fun e => { e with state := e.state.next })
  := by
  have hnames : (t.modify i fun e => { e with state := e.state.next }).names = t.names :=
    names_modify t i fun _ => rfl
  refine { id_eq := rfl, names_prefix := hnames ▸ List.prefix_rfl, records := ?_ }
  intro before h
  refine {
    nodup_names := hnames ▸ h.nodup_names
    state_eq := Counts.next h.state_eq h.nodup_names hi
    value_eq := h.value_eq_modify fun _ => rfl
    mem_names := ?_ }
  rw [hnames, List.forall_mem_append, List.forall_mem_singleton]
  use h.mem_names
  rw [name?_eq_getElem?] at hi
  apply List.mem_of_getElem? hi

/-- Declaring a name counts once. -/
theorem grows_define (t : SymbolTable) (name : String) :
  Grows [name] t (t.define name).2 ∧ (t.define name).2.name? (t.define name).1 = some name
  := by
  obtain ⟨hgrows, hi⟩ := grows_reference t name
  have hnext := grows_next hi
  exact ⟨hgrows.trans hnext, hnext.name?_eq hi⟩

end SymbolTable

/-! ### Lowering -/

namespace Lowering

variable {α β : Type} {x : Lowering α} {f : α → Lowering β} {t t' : SymbolTable}

theorem run_bind_eq_ok_iff {b : β} :
  (x >>= f).run t = .ok (b, t')
    ↔ ∃ a u, x.run t = .ok (a, u) ∧ (f a).run u = .ok (b, t')
  := by
  rw [StateT.run_bind, Except.bind_eq_ok_iff]
  constructor
  · rintro ⟨⟨a, u⟩, hx, hf⟩
    exact ⟨a, u, hx, hf⟩
  · rintro ⟨a, u, hx, hf⟩
    exact ⟨(a, u), hx, hf⟩

/-- A computation that declares no names, and what its results satisfy. -/
def Mentions (x : Lowering α) (P : α → Prop) : Prop :=
  ∀ t t' a, x.run t = .ok (a, t') → SymbolTable.Grows [] t t' ∧ P a

variable {P : α → Prop} {Q : β → Prop}

theorem mentions_pure {a : α} (h : P a) :
  Mentions (pure a) P
  := by
  intro t t' _ hrun
  cases hrun
  exact ⟨SymbolTable.Grows.refl t, h⟩

theorem mentions_throw (e : DocumentError) :
  Mentions (throw e) P
  := by
  intro t t' a hrun
  cases hrun

theorem Mentions.bind (hx : Mentions x P) (hf : ∀ a, Mentions (f a) Q) :
  Mentions (x >>= f) Q
  := by
  intro t t' b hrun
  obtain ⟨a, u, hxu, hfu⟩ := run_bind_eq_ok_iff.mp hrun
  exact ⟨(hx _ _ _ hxu).1.trans (hf a _ _ _ hfu).1, (hf a _ _ _ hfu).2⟩

theorem mentions_reference (name : String) :
  Mentions (reference name) fun _ => True
  := by
  intro t t' a hrun
  cases hrun
  exact ⟨(t.grows_reference name).1, trivial⟩

theorem mentions_annotate (name : String) (binding : Binding) :
  Mentions (annotate name binding) fun _ => True
  := by
  intro t t' a hrun
  cases hrun
  exact ⟨(t.grows_reference name).1.trans (SymbolTable.grows_setBinding _ _ binding), trivial⟩

end Lowering

theorem Operand.mentions_lower (number : Nat) (o : Operand) :
  Lowering.Mentions (o.lower number) fun _ => True
  := by
  cases o with
  | decimal value => apply Lowering.mentions_pure trivial
  | hexadecimal value => apply Lowering.mentions_pure trivial
  | character c =>
      rw [lower]
      split
      · apply Lowering.mentions_pure trivial
      · apply Lowering.mentions_throw
  | text value => apply Lowering.mentions_pure trivial
  | symbol name => apply Lowering.mentions_reference

/-- Lines as they come from a document: an instruction without an operand needs none, the operand
of an `.ALIGN` is a small power of two, and that of an `.ASCII` is a text. -/
def LineKind.Lowered : LineKind → Prop
  | .monadic m => m.isUnary
  | .align a => a.count? ∈ [some 1, some 2, some 4, some 8]
  | .data .ascii a => a.bytes?.isSome
  | _ => True

/-- What a line says declares no name. -/
theorem Operation.mentions_lower (number : Nat) (op : Operation) :
  Lowering.Mentions (op.lower number) LineKind.Lowered
  := by
  cases op with
  | blank => apply Lowering.mentions_pure trivial
  | comment => apply Lowering.mentions_pure trivial
  | unary m =>
      rw [lower]
      split
      · next hm =>
        apply Lowering.mentions_pure
        apply hm
      · apply Lowering.mentions_throw
  | nonUnary m o mode =>
      rw [lower]
      split
      · apply Lowering.mentions_throw
      · apply (o.mentions_lower number).bind fun a => Lowering.mentions_pure trivial
  | align o =>
      apply (o.mentions_lower number).bind
      intro a
      split
      · next ha =>
        apply Lowering.mentions_pure
        apply ha
      · apply Lowering.mentions_throw
  | ascii text =>
      apply Lowering.mentions_pure
      rfl
  | byte o => apply (o.mentions_lower number).bind fun a => Lowering.mentions_pure trivial
  | word o => apply (o.mentions_lower number).bind fun a => Lowering.mentions_pure trivial
  | block o =>
      apply (o.mentions_lower number).bind
      intro a
      split
      · apply Lowering.mentions_pure trivial
      · apply Lowering.mentions_throw
  | equate o => apply (o.mentions_lower number).bind fun a => Lowering.mentions_pure trivial
  | opening name flags =>
      rw [lower]
      split
      · apply Lowering.mentions_pure trivial
      · apply Lowering.mentions_throw
  | exported name =>
      apply (Lowering.mentions_annotate name .global).bind
      intro a
      apply Lowering.mentions_pure trivial
  | imported name =>
      apply (Lowering.mentions_annotate name .imported).bind
      intro a
      apply Lowering.mentions_pure trivial
  | input name =>
      apply (Lowering.mentions_reference name).bind fun a => Lowering.mentions_pure trivial
  | output name =>
      apply (Lowering.mentions_reference name).bind fun a => Lowering.mentions_pure trivial
  | systemCall name =>
      apply (Lowering.mentions_reference name).bind fun a => Lowering.mentions_pure trivial
  | org o => apply (o.mentions_lower number).bind fun a => Lowering.mentions_pure trivial
  | burn o => apply (o.mentions_lower number).bind fun a => Lowering.mentions_pure trivial

/-- A line of a document and the line of a program that it becomes, when the symbols of the
program are those of the table `t`. -/
structure SourceLine.LoweredTo (t : SymbolTable) (s : SourceLine) (l : Line) : Prop where
  kind : l.kind.Lowered
  symbol : l.symbol?.map t.name? = s.symbol?.map some

/-- A line declares its label and nothing else. -/
theorem SourceLine.lower_eq_ok {number : Nat} {s : SourceLine} {t t' : SymbolTable} {l : Line}
    (h : (s.lower number).run t = .ok (l, t')) :
  SymbolTable.Grows s.symbol?.toList t t' ∧ s.LoweredTo t' l
  := by
  obtain ⟨kind, u, hkind, h⟩ := Lowering.run_bind_eq_ok_iff.mp h
  obtain ⟨symbol?, u', hsymbol, h⟩ := Lowering.run_bind_eq_ok_iff.mp h
  cases h
  obtain ⟨hgrows, hlowered⟩ := s.operation.mentions_lower number _ _ _ hkind
  cases hs : s.symbol? with
  | none =>
      rw [hs] at hsymbol
      cases hsymbol
      refine ⟨hgrows, hlowered, ?_⟩
      rw [hs]
      rfl
  | some name =>
      rw [hs] at hsymbol
      cases hsymbol
      obtain ⟨hdefine, hname⟩ := u.grows_define name
      refine ⟨hgrows.trans hdefine, hlowered, ?_⟩
      rw [hs]
      apply congrArg some hname

theorem SourceLine.LoweredTo.grows {t t' : SymbolTable} {declared : List String} {s : SourceLine}
    {l : Line} (h : s.LoweredTo t l) (hgrows : SymbolTable.Grows declared t t') :
  s.LoweredTo t' l
  := by
  refine ⟨h.kind, ?_⟩
  have hsymbol := h.symbol
  cases hl : l.symbol? with
  | none => rw [← hsymbol, hl, Option.map_none, Option.map_none]
  | some i =>
      cases hs : s.symbol? with
      | none => simp [hl, hs] at hsymbol
      | some name =>
          rw [hl, hs, Option.map_some, Option.map_some, Option.some_inj] at hsymbol
          rw [Option.map_some, Option.map_some, hgrows.name?_eq hsymbol]

/-- Lines declare their labels, one after the other. -/
theorem lowerLines_eq_ok {number : Nat} {lines : List SourceLine} {t t' : SymbolTable}
    {program : Program} (h : (lowerLines number lines).run t = .ok (program, t')) :
  SymbolTable.Grows (lines.filterMap (·.symbol?)) t t'
    ∧ List.Forall₂ (SourceLine.LoweredTo t') lines program
  := by
  induction lines generalizing number t program with
  | nil =>
      cases h
      exact ⟨SymbolTable.Grows.refl _, .nil⟩
  | cons s lines ih =>
      obtain ⟨l, u, hl, h⟩ := Lowering.run_bind_eq_ok_iff.mp h
      obtain ⟨rest, u', hrest, h⟩ := Lowering.run_bind_eq_ok_iff.mp h
      cases h
      obtain ⟨hgrows, hlowered⟩ := SourceLine.lower_eq_ok hl
      obtain ⟨hgrows', hlowered'⟩ := ih hrest
      constructor
      · have hnames : (s :: lines).filterMap (·.symbol?)
            = s.symbol?.toList ++ lines.filterMap (·.symbol?) := by
          cases hs : s.symbol? with
          | none => rw [List.filterMap_cons_none hs]; rfl
          | some name => rw [List.filterMap_cons_some hs]; rfl
        rw [hnames]
        apply hgrows.trans hgrows'
      · apply List.Forall₂.cons (hlowered.grows hgrows') hlowered'

/-- The symbols of a document are its names, with the number of their declarations. -/
theorem Document.lower_eq_ok {d : Document} {id : TableId} {u : ProgramUnit}
    (h : d.lower id = .ok u) :
  u.symbols.id = id ∧ u.symbols.Records (d.lines.filterMap (·.symbol?))
    ∧ List.Forall₂ (SourceLine.LoweredTo u.symbols) d.lines u.program
  := by
  obtain ⟨⟨program, symbols⟩, hrun, h⟩ := Except.bind_eq_ok_iff.mp h
  cases h
  obtain ⟨hgrows, hlowered⟩ := lowerLines_eq_ok hrun
  refine ⟨hgrows.id_eq, ?_, hlowered⟩
  apply hgrows.records []
  constructor
  all_goals simp [SymbolTable.names]

end Pep10
