import Pep10.Proofs.Acceptance
import Pep10.Proofs.Definition

/-!
# Values of declared symbols

What the symbols of a program stand for after it has been assembled.  A label stands for the bytes
of its line.  A label on a line without bytes stands for the next byte if the line is walked
forward, and for the address below the next byte if it is walked backward: there the base of a walk
is the last address that is free.  An `.EQUATE` makes its symbol a constant or a pointer, and a
symbol that no line declares keeps what it had from its import.
-/

namespace Pep10

/-! ### Programs whose lines declare different symbols -/

/-- A program with its symbols as a document gives them, or one in which no symbol is declared by
two lines. -/
inductive ProgramUnit.Labelled (u : ProgramUnit) : Prop
  | document {d : Document} {id : TableId} (hlower : d.lower id = .ok u)
  | distinct (hlabels : (u.program.filterMap (·.symbol?)).Nodup)

/-- The labels of a document that has sections are different. -/
theorem ProgramUnit.Labelled.nodup {u : ProgramUnit} (hu : u.Labelled)
    {linked : List SymbolTable} {initial : Heading} {sections : List Section}
    (hsections : u.program.sections (u.symbols.bindImports linked) initial = .ok sections) :
  (u.program.filterMap (·.symbol?)).Nodup
  := by
  cases hu with
  | distinct hlabels => apply hlabels
  | document hlower =>
      obtain ⟨hlabels, -⟩ := Program.sections_eq_ok_iff.mp hsections
      rw [forall_checkLabel_iff hlower] at hlabels
      obtain ⟨-, -, hlines⟩ := Document.lower_eq_ok hlower
      apply List.Nodup.of_map u.symbols.name?
      rw [map_name?_symbols hlines]
      apply hlabels.map (Option.some_injective _)

/-! ### Lines without bytes -/

theorem Idle.nil (t : LineTable Address) :
  Idle t []
  := ⟨List.forall_mem_nil _, List.forall_mem_nil _⟩

/-- A tiling from one address reaches only one. -/
theorem Tiled.unique {c d e : UInt16} {ps : List Placement} (hd : Tiled c ps d)
    (he : Tiled c ps e) :
  d = e
  := by
  induction ps generalizing c with
  | nil => apply hd.symm.trans he
  | cons p ps ih =>
      by_cases horg : p.line.IsOrg
      · rw [cons_org_iff horg] at hd he
        apply ih hd he
      · rw [cons_iff horg] at hd he
        apply ih hd.2 he.2

theorem Line.isInstruction_of_size_eq_zero {l : Line} {base : UInt16} (h : l.size base = 0) :
  l.isInstruction = false
  := by
  obtain ⟨kind, symbol?, comment?⟩ := l
  cases kind with
  | monadic m => cases h
  | dyadic m mode a => cases h
  | _ => rfl

namespace Sides

variable {t : LineTable Address} {order before between after : List NumberedLine}
  {base c origin d : UInt16} {below above : List Placement} {q : Placement} {l : NumberedLine}
  {e : Address}

/-- The next line with bytes after a line that is walked forward begins where that line ends. -/
theorem address_next (h : Sides base order t c origin d below above) (hq : q ∈ above)
    (horder : order = before ++ q.line :: (between ++ l :: after)) (hbetween : Idle t between)
    (he : t.get? l.id = some e) :
  e.address = if q.line.IsOrg then q.address else q.base + q.size
  := by
  obtain ⟨pre, post, rfl⟩ := List.append_of_mem hq
  have hlines : (below ++ pre).map (·.line) ++ q.line :: post.map (·.line) = order := by
    simp [← h.lines_eq]
  have hnodup := h.nodup
  rw [← hlines] at hnodup horder
  have hpost := (append_cons_inj_of_nodup hnodup horder).2
  have hentered : Entered t post := by
    apply h.entered.subset
    intro r hr
    simp [hr]
  obtain ⟨m, hpre, hrest⟩ := Tiled.append_iff.mp h.above_tiled
  split
  · next horg =>
    rw [Tiled.cons_org_iff horg] at hrest
    apply hrest.address_eq_of_idle hentered hpost hbetween he
  · next horg =>
    obtain rfl := hpre.unique (h.above_bases pre q post rfl)
    rw [Tiled.cons_iff horg] at hrest
    apply hrest.2.address_eq_of_idle hentered hpost hbetween he

theorem mem_above (h : Sides base order t c origin d below above) (hq : q ∈ below ++ above)
    (hforward : q.line ∈ walkedForward order) :
  q ∈ above
  := by
  apply (List.mem_append.mp hq).resolve_left
  intro hbelow
  have hnodup := h.nodup
  rw [h.forward_eq] at hforward
  rw [← h.lines_eq, List.map_append, List.nodup_append] at hnodup
  apply hnodup.2.2 q.line (List.mem_map_of_mem hbelow) q.line hforward rfl

theorem mem_below (h : Sides base order t c origin d below above) (hq : q ∈ below ++ above)
    (hbackward : q.line ∉ walkedForward order) :
  q ∈ below
  := by
  apply (List.mem_append.mp hq).resolve_right
  intro habove
  rw [h.forward_eq] at hbackward
  apply hbackward (List.mem_map_of_mem habove)

end Sides

/-! ### Declared symbols -/

section

variable {program : Program} {symbols : SymbolTable} {options : Options} {a : Assembly}
  {l : NumberedLine}

/-- A line of a program is in one of its sections. -/
theorem exists_section_of_mem_numbered (h : (assemble program symbols options).outcome = .ok a)
    (hl : l ∈ program.numbered) :
  ∃ (k : Nat) (s : Section), a.sections[k]? = some s ∧ l ∈ s.lines
  := by
  obtain ⟨s, hs, hl⟩ := List.mem_flatMap.mp ((mem_sectionOrder_iff h).mpr hl)
  obtain ⟨k, hk⟩ := List.mem_iff_getElem?.mp hs
  use k, s, hk, hl

/-- A line that takes no bytes anywhere has no address. -/
theorem get?_addresses_eq_none (h : (assemble program symbols options).outcome = .ok a)
    (hl : l ∈ program.numbered) (hsize : ∀ base, l.line.size base = 0) :
  a.addresses.get? l.id = none
  := by
  rw [← mem_sectionOrder_iff h] at hl
  obtain ⟨sections, hsections, hassign, haddresses, horder, -⟩ := exists_layout_of_assemble h
  obtain ⟨_, _, below, above, -, -, hsides⟩ := assign_sides hsections hassign
  rw [horder, ← hsides.lines_eq] at hl
  obtain ⟨p, hp, rfl⟩ := List.mem_map.mp hl
  have hzero := (hsides.entered.faithful p hp).size_eq.trans (hsize p.base)
  rw [haddresses]
  apply (hsides.entered.get?_eq p hp).trans (if_pos hzero)

end

section

variable {u : ProgramUnit} {linked : List SymbolTable} {initial : Heading} {base : UInt16}
  {sections laid : List Section} {k : Nat} {s : Section} {l : NumberedLine} {i : SymbolId}

/-- A symbol with one definition gets it. -/
theorem get?_of_definition {program : Program} {symbols : SymbolTable}
    (hsections : program.sections (symbols.bindImports linked) initial = .ok sections)
    (hassign : (assign symbols.id sections base).outcome = .ok laid) {d : Definition}
    (hd : d ∈ (assign symbols.id sections base).placements.filterMap (·.definition?))
    (honly : ∀ d' ∈ (assign symbols.id sections base).placements.filterMap (·.definition?),
      d'.symbol = d.symbol → d' = d) :
  ∃ e : SymbolEntry, ((assign symbols.id sections base).enterInto
    (symbols.bindImports linked)).get? d.symbol = some (e.define d)
  := by
  have hperm := symbols_of_definitions hsections hassign
  have hget : ((assign symbols.id sections base).enterInto (symbols.bindImports linked)).get?
      d.symbol = ((symbols.bindImports linked).get? d.symbol).map (·.define d) :=
    SymbolTable.get?_foldl_enter_of_mem hd honly
  -- the symbol of a line is in the table, or the program would have no sections
  obtain ⟨l, hl, hi⟩ := List.mem_filterMap.mp (hperm.mem_iff.mp (List.mem_map_of_mem hd))
  obtain ⟨hlabels, -⟩ := Program.sections_eq_ok_iff.mp hsections
  simp only [checkLabel_eq_ok_iff] at hlabels
  obtain ⟨e, he, -⟩ := (Program.forall_mem_numbered_iff (P := fun l => ∀ i ∈ l.symbol?,
    ∃ e, (symbols.bindImports linked).get? i = some e ∧ e.isSingle)).mp hlabels l hl _ hi
  rw [hget, he]
  use e
  rfl

/-- The symbol that a line declares gets the definition that comes with the placement of the
line. -/
theorem get?_of_placed (hu : u.Labelled)
    (hsections : u.program.sections (u.symbols.bindImports linked) initial = .ok sections)
    (hassign : (assign u.symbols.id sections base).outcome = .ok laid) {p : Placement}
    (hp : p ∈ (assign u.symbols.id sections base).placements) {d : Definition}
    (hd : p.definition? = some d) :
  ∃ e : SymbolEntry, ((assign u.symbols.id sections base).enterInto
    (u.symbols.bindImports linked)).get? d.symbol = some (e.define d)
  := by
  have hperm := symbols_of_definitions hsections hassign
  have hmem := List.mem_filterMap.mpr ⟨p, hp, hd⟩
  apply get?_of_definition hsections hassign hmem
  intro d' hd' hsymbol
  apply List.inj_on_of_nodup_map (hperm.nodup_iff.mpr (hu.nodup hsections)) hd' hmem hsymbol

/-- A label stands for the place of its line, and belongs to the section of the line. -/
theorem get?_of_label (hu : u.Labelled)
    (hsections : u.program.sections (u.symbols.bindImports linked) initial = .ok sections)
    (hassign : (assign u.symbols.id sections base).outcome = .ok laid)
    (hs : laid[k]? = some s) (hl : l ∈ s.lines) (hi : l.line.symbol? = some i)
    (hkind : ∀ argument, l.line.kind ≠ .equate argument) :
  ∃ p ∈ (assign u.symbols.id sections base).placements, p.line = l
    ∧ ∃ e : SymbolEntry,
      ((assign u.symbols.id sections base).enterInto (u.symbols.bindImports linked)).get? i
        = some { e with
          value := .location {
            address := p.address
            size := p.size
            addressWidth := 2
            offset := 0
            kind := if l.line.isInstruction then .code else .object }
          sectionIndex? := some k }
  := by
  obtain ⟨p, hp, rfl, direction, next, hplace⟩ :=
    exists_place_of_mem_section hsections hassign hs hl
  have hd := Pass.definition_of_label hplace hkind
  rw [Pass.label, hi, Option.map_some] at hd
  use p, hp, rfl
  apply get?_of_placed hu hsections hassign hp hd

/-- The symbol of an `.EQUATE` stands for the operand. -/
theorem value?_of_equate (hu : u.Labelled)
    (hsections : u.program.sections (u.symbols.bindImports linked) initial = .ok sections)
    (hassign : (assign u.symbols.id sections base).outcome = .ok laid)
    (hs : laid[k]? = some s) (hl : l ∈ s.lines) (hi : l.line.symbol? = some i)
    {argument : Argument} (hkind : l.line.kind = .equate argument) :
  ∃ value, equateValue u.symbols.id l.id argument = .ok value
    ∧ ((assign u.symbols.id sections base).enterInto (u.symbols.bindImports linked)).value? i
      = some value
  := by
  obtain ⟨p, hp, rfl, direction, next, hplace⟩ :=
    exists_place_of_mem_section hsections hassign hs hl
  obtain ⟨value, hvalue, hd⟩ := Pass.definition_of_equate hplace hkind hi
  obtain ⟨e, he⟩ := get?_of_placed hu hsections hassign hp hd
  use value, hvalue
  rw [SymbolTable.value?, he]
  rfl

/-- A line without bytes is placed at the next byte when it is walked forward, and just below it
when it is walked backward. -/
theorem address_of_idle {program : Program} {symbols : SymbolTable}
    (hsections : program.sections symbols initial = .ok sections)
    (hassign : (assign symbols.id sections base).outcome = .ok laid) {p : Placement}
    (hp : p ∈ (assign symbols.id sections base).placements) (hsize : p.size = 0)
    {before between after : List NumberedLine} {m : NumberedLine} {e : Address}
    (horder : sectionOrder sections = before ++ p.line :: (between ++ m :: after))
    (hbetween : Idle (assign symbols.id sections base).addresses between)
    (he : (assign symbols.id sections base).addresses.get? m.id = some e) :
  p.address
    = if p.line ∈ walkedForward (sectionOrder sections) then e.address else e.address - 1
  := by
  obtain ⟨a, progress, below, above, -, hfrontier, hsides⟩ := assign_sides hsections hassign
  have hmem := hfrontier.perm.mem_iff.mp hp
  split
  · next hforward =>
    have habove := hsides.mem_above hmem hforward
    obtain ⟨_, next, hplace⟩ := hfrontier.above_placed p habove
    rw [hsides.address_next habove horder hbetween he]
    split
    · rfl
    · next horg => rw [hsize, UInt16.add_zero, (Pass.place_forward hplace rfl horg).1]
  · next hbackward =>
    have hbelow := hsides.mem_below hmem hbackward
    obtain ⟨_, next, hplace⟩ := hfrontier.below_placed p hbelow
    have horg := hsides.below_org p.line (List.mem_map_of_mem hbelow)
    obtain ⟨hnext, haddress⟩ := Pass.place_backward hplace rfl horg
    have hbase := (hsides.visitedBackward hbelow).before horder hbetween (.bytes he)
    rw [if_pos hsize, hnext, hsize, UInt16.sub_zero] at haddress
    rw [haddress, ← hbase, UInt16.add_sub_cancel]

end

/-- The address that an origin fixes is its operand as a number of two bytes. -/
theorem originValue_eq_ok_iff {line : LineId} {argument : Argument} {v : UInt16} :
  originValue line argument = .ok v ↔ argument.constant 2 = .ok (some v.toUInt64)
  := by
  cases argument with
  | symbolic name r => simp [originValue, Argument.constant]
  | literal l =>
      rw [Argument.constant_literal_eq_ok_iff, originValue]
      cases hvalue : l.value 2 with
      | error e => simp
      | ok w =>
          have hlt : w.toNat < 65536 := Literal.toNat_value_lt (by decide) (by decide) hvalue
          have hword : w.toUInt16.toUInt64 = w := by
            apply UInt64.toNat_inj.mp
            rw [UInt16.toNat_toUInt64, UInt64.toNat_toUInt16]
            omega
          simp only [Except.ok.injEq]
          constructor
          · rintro rfl
            apply hword.symm
          · rintro rfl
            apply UInt16.toUInt16_toUInt64

/-! ### Values after assembly -/

/-- What the symbols of a program stand for after it has been assembled.  The tables are the one
with the imports of the program, and the one after its lines have been laid out. -/
structure SymbolValues (program : Program) (bound final : SymbolTable) (a : Assembly) : Prop where
  /-- A declared symbol has a value. -/
  declared : ∀ l ∈ program.numbered, ∀ i, l.line.symbol? = some i →
    ∃ value, final.value? i = some value ∧ value ≠ .empty
  /-- The label of a line with bytes stands for them, and belongs to the section of the line. -/
  addressed : ∀ l ∈ program.numbered, ∀ i e, l.line.symbol? = some i →
    a.addresses.get? l.id = some e →
    ∃ (k : Nat) (s : Section) (entry : SymbolEntry), a.sections[k]? = some s ∧ l ∈ s.lines
      ∧ final.get? i = some entry ∧ entry.sectionIndex? = some k
      ∧ entry.value = .location {
        address := e.address
        size := e.size
        addressWidth := 2
        offset := 0
        kind := if l.line.isInstruction then .code else .object }
  /-- The label of an `.ORG` stands for its value. -/
  org : ∀ l ∈ program.numbered, ∀ i argument, l.line.symbol? = some i →
    l.origin? .org = some argument →
    ∃ address : UInt16, argument.constant 2 = .ok (some address.toUInt64)
      ∧ final.value? i = some (.location
        { address, size := 0, addressWidth := 2, offset := 0, kind := .object })
  /-- The label of a line without bytes stands for a place without bytes. -/
  idle : ∀ l ∈ program.numbered, ∀ i, l.line.symbol? = some i →
    (∀ argument, l.line.kind ≠ .equate argument) → a.addresses.get? l.id = none →
    ∃ address, final.value? i = some (.location
      { address, size := 0, addressWidth := 2, offset := 0, kind := .object })
  /-- That place is the next byte, if the line is walked forward. -/
  next : ∀ {before l between m after i e},
    sectionOrder a.sections = before ++ l :: (between ++ m :: after) →
    l ∈ walkedForward (sectionOrder a.sections) → l.line.symbol? = some i →
    (∀ argument, l.line.kind ≠ .equate argument) → a.addresses.get? l.id = none →
    Idle a.addresses between → a.addresses.get? m.id = some e →
    final.value? i = some (.location
      { address := e.address, size := 0, addressWidth := 2, offset := 0, kind := .object })
  /-- The symbol of an `.EQUATE` points to the symbol that is the operand. -/
  pointer : ∀ l ∈ program.numbered, ∀ i name r, l.line.symbol? = some i →
    l.line.kind = .equate (.symbolic name r) →
    final.value? i = some (if r.table = bound.id then .internal r.entry else .external r)
  /-- An `.EQUATE` of a literal makes its symbol a constant of two bytes. -/
  constant : ∀ l ∈ program.numbered, ∀ i literal, l.line.symbol? = some i →
    l.line.kind = .equate (.literal literal) →
    ∃ v, (Argument.literal literal).constant 2 = .ok (some v)
      ∧ final.value? i = some (.constant { byteCount := 2, bits := v, mask := 0xFFFF })
  /-- A symbol that no line declares keeps the value it had. -/
  undeclared : ∀ i, (∀ l ∈ program, l.symbol? ≠ some i) → final.value? i = bound.value? i

section

variable {u : ProgramUnit} {options : Options} {a : Assembly} {l : NumberedLine} {i : SymbolId}

/-- A label stands for a place in the section of its line, of as many bytes as the line has. -/
theorem exists_location_of_label (hu : u.Labelled)
    (h : (assemble u.program u.symbols options).outcome = .ok a) (hl : l ∈ u.program.numbered)
    (hi : l.line.symbol? = some i) (hkind : ∀ argument, l.line.kind ≠ .equate argument) :
  ∃ (p : Placement) (k : Nat) (s : Section) (entry : SymbolEntry), p.line = l ∧ p.Faithful
    ∧ a.sections[k]? = some s ∧ l ∈ s.lines
    ∧ (assemble u.program u.symbols options).symbols.get? i = some entry
    ∧ entry.sectionIndex? = some k
    ∧ entry.value = .location {
      address := p.address
      size := p.size
      addressWidth := 2
      offset := 0
      kind := if l.line.isInstruction then .code else .object }
    ∧ a.addresses.get? l.id = (if p.size = 0 then none else some ⟨p.address, p.size⟩)
    ∧ ∀ {before between m after e},
      sectionOrder a.sections = before ++ l :: (between ++ m :: after) → p.size = 0 →
      Idle a.addresses between → a.addresses.get? m.id = some e →
      p.address
        = if l ∈ walkedForward (sectionOrder a.sections) then e.address else e.address - 1
  := by
  obtain ⟨k, s, hs, hl⟩ := exists_section_of_mem_numbered h hl
  obtain ⟨sections, hsections, hassign, haddresses, horder, hfinal⟩ :=
    exists_layout_of_assemble h
  obtain ⟨p, hp, rfl, e, he⟩ := get?_of_label hu hsections hassign hs hl hi hkind
  obtain ⟨_, _, below, above, -, hfrontier, hsides⟩ := assign_sides hsections hassign
  have hmem := hfrontier.perm.mem_iff.mp hp
  rw [hfinal, haddresses, horder]
  refine ⟨p, k, s, _, rfl, hfrontier.faithful p hmem, hs, hl, he, rfl, rfl,
    hsides.entered.get?_eq p hmem, ?_⟩
  intro before between m after e hlines hsize hbetween hm
  apply address_of_idle hsections hassign hp hsize hlines hbetween hm

/-- A line without bytes gives its label a place without bytes. -/
theorem exists_location_of_idle (hu : u.Labelled)
    (h : (assemble u.program u.symbols options).outcome = .ok a) (hl : l ∈ u.program.numbered)
    (hi : l.line.symbol? = some i) (hkind : ∀ argument, l.line.kind ≠ .equate argument)
    (hnone : a.addresses.get? l.id = none) :
  ∃ address,
    (assemble u.program u.symbols options).symbols.value? i = some (.location
      { address, size := 0, addressWidth := 2, offset := 0, kind := .object })
    ∧ (∀ argument, l.origin? .org = some argument →
      argument.constant 2 = .ok (some address.toUInt64))
    ∧ ∀ {before between m after e},
      sectionOrder a.sections = before ++ l :: (between ++ m :: after) →
      Idle a.addresses between → a.addresses.get? m.id = some e →
      address
        = if l ∈ walkedForward (sectionOrder a.sections) then e.address else e.address - 1
  := by
  obtain ⟨p, k, s, entry, rfl, hfaithful, -, -, hentry, -, hvalue, haddress, hnext⟩ :=
    exists_location_of_label hu h hl hi hkind
  have hsize : p.size = 0 := by
    by_contra hsize
    rw [hnone, if_neg hsize] at haddress
    cases haddress
  have hinstruction : p.line.line.isInstruction = false :=
    Line.isInstruction_of_size_eq_zero (hfaithful.size_eq.symm.trans hsize)
  refine ⟨p.address, ?_, fun argument ha => originValue_eq_ok_iff.mp (hfaithful.origin_eq ha),
    fun horder => hnext horder hsize⟩
  rw [SymbolTable.value?, hentry, Option.map_some, hvalue, hsize, hinstruction]
  rfl

/-- The symbol of an `.EQUATE` has the value of the operand. -/
theorem exists_value_of_equate (hu : u.Labelled)
    (h : (assemble u.program u.symbols options).outcome = .ok a) (hl : l ∈ u.program.numbered)
    (hi : l.line.symbol? = some i) {argument : Argument}
    (hkind : l.line.kind = .equate argument) :
  ∃ value, equateValue u.symbols.id l.id argument = .ok value
    ∧ (assemble u.program u.symbols options).symbols.value? i = some value
  := by
  obtain ⟨k, s, hs, hl⟩ := exists_section_of_mem_numbered h hl
  obtain ⟨sections, hsections, hassign, -, -, hfinal⟩ := exists_layout_of_assemble h
  rw [hfinal]
  apply value?_of_equate hu hsections hassign hs hl hi hkind

/-- A symbol that is not declared is not defined. -/
theorem value?_of_undeclared {program : Program} {symbols : SymbolTable}
    (h : (assemble program symbols options).outcome = .ok a)
    (hi : ∀ l ∈ program, l.symbol? ≠ some i) :
  (assemble program symbols options).symbols.value? i
    = (symbols.bindImports options.linked).value? i
  := by
  obtain ⟨sections, hsections, hassign, -, -, hfinal⟩ := exists_layout_of_assemble h
  have hperm := symbols_of_definitions hsections hassign
  rw [hfinal, SymbolTable.value?, Traced.enterInto, SymbolTable.get?_foldl_enter_of_ne]
  · rfl
  · intro d hd hsymbol
    have hmem := hperm.mem_iff.mp (List.mem_map_of_mem hd)
    rw [hsymbol] at hmem
    obtain ⟨l, hl, hl'⟩ := List.mem_filterMap.mp hmem
    apply hi l hl hl'

/-- Every symbol of an assembled program has the value that the line declaring it gives it, and
symbols that are not declared have the value of their import. -/
theorem assemble_symbolValues (hu : u.Labelled)
    (h : (assemble u.program u.symbols options).outcome = .ok a) :
  SymbolValues u.program (u.symbols.bindImports options.linked)
    (assemble u.program u.symbols options).symbols a
  := by
  constructor
  case declared =>
    intro l hl i hi
    by_cases hkind : ∃ argument, l.line.kind = .equate argument
    · obtain ⟨argument, hkind⟩ := hkind
      obtain ⟨value, hvalue, hget⟩ := exists_value_of_equate hu h hl hi hkind
      use value, hget, equateValue_ne_empty hvalue
    · obtain ⟨p, k, s, entry, -, -, -, -, hentry, -, hvalue, -⟩ :=
        exists_location_of_label hu h hl hi (not_exists.mp hkind)
      use entry.value
      rw [SymbolTable.value?, hentry]
      use rfl
      intro hempty
      cases hvalue.symm.trans hempty
  case addressed =>
    intro l hl i e hi he
    have hkind : ∀ argument, l.line.kind ≠ .equate argument := by
      intro argument hkind
      rw [get?_addresses_eq_none h hl fun base => by simp [Line.size, Line.size?, hkind]] at he
      cases he
    obtain ⟨p, k, s, entry, -, -, hs, hmem, hentry, hsection, hvalue, haddress, -⟩ :=
      exists_location_of_label hu h hl hi hkind
    rw [he] at haddress
    split at haddress
    · cases haddress
    · cases haddress
      use k, s, entry
  case org =>
    intro l hl i argument hi ha
    have hkind := NumberedLine.origin?_eq_some_iff.mp ha
    have hne : ∀ argument, l.line.kind ≠ .equate argument := by
      intro argument hequate
      rw [hkind] at hequate
      cases hequate
    have hnone := get?_addresses_eq_none h hl fun base => by simp [Line.size, Line.size?, hkind]
    obtain ⟨address, hvalue, horg, -⟩ := exists_location_of_idle hu h hl hi hne hnone
    use address, horg argument ha, hvalue
  case idle =>
    intro l hl i hi hkind hnone
    obtain ⟨address, hvalue, -⟩ := exists_location_of_idle hu h hl hi hkind hnone
    use address, hvalue
  case next =>
    intro before l between m after i e horder hforward hi hkind hnone hbetween hm
    have hl : l ∈ u.program.numbered := by
      rw [← mem_sectionOrder_iff h, horder]
      simp
    obtain ⟨address, hvalue, -, hnext⟩ := exists_location_of_idle hu h hl hi hkind hnone
    rw [hvalue, hnext horder hbetween hm, if_pos hforward]
  case pointer =>
    intro l hl i name r hi hkind
    obtain ⟨value, hvalue, hget⟩ := exists_value_of_equate hu h hl hi hkind
    rw [hget, ← Except.ok.inj hvalue]
    rfl
  case constant =>
    intro l hl i literal hi hkind
    obtain ⟨value, hvalue, hget⟩ := exists_value_of_equate hu h hl hi hkind
    obtain ⟨v, hv, rfl⟩ := equateValue_literal_eq_ok_iff.mp hvalue
    use v, Argument.constant_literal_eq_ok_iff.mpr hv, hget
  case undeclared =>
    intro i hi
    apply value?_of_undeclared h hi

end

/-- A document with labels on both sides of an `.ORG`, on lines with bytes and without. -/
def Document.labels : Document where
  lines := [
    { operation := .byte (.decimal 1), symbol? := some "data" },
    { operation := .org (.hexadecimal 0x0100), symbol? := some "start" },
    { operation := .block (.decimal 0), symbol? := some "here" },
    { operation := .nonUnary .ldwa (.symbol "far") (some .immediate), symbol? := some "load" },
    { operation := .equate (.symbol "here"), symbol? := some "alias" },
    { operation := .equate (.decimal (-1)), symbol? := some "mask" }]

/-- The program and the symbols of the document `labels`. -/
def ProgramUnit.labels : ProgramUnit where
  program := [
    { kind := .data .byte (.literal (.decimal 1)), symbol? := some 0 },
    { kind := .origin .org (.literal (.hexadecimal 0x0100)), symbol? := some 1 },
    { kind := .block (.literal (.decimal 0)), symbol? := some 2 },
    { kind := .dyadic .ldwa (some .immediate) (.symbolic "far" ⟨0, 3⟩), symbol? := some 4 },
    { kind := .equate (.symbolic "here" ⟨0, 2⟩), symbol? := some 5 },
    { kind := .equate (.literal (.decimal (-1))), symbol? := some 6 }]
  symbols := {
    id := 0
    entries := [
      { name := "data", state := .single },
      { name := "start", state := .single },
      { name := "here", state := .single },
      { name := "far" },
      { name := "load", state := .single },
      { name := "alias", state := .single },
      { name := "mask", state := .single }] }

theorem buffers_assemble_labels :
  (assemble ProgramUnit.labels.program ProgramUnit.labels.symbols {}).outcome.map
    (·.object.buffers) = .ok [[1, 0xC0, 0, 0]]
  := by
  cbv

theorem assemble_symbolValues_labels :
  Document.labels.lower 0 = .ok .labels
    ∧ ∃ a, (assemble ProgramUnit.labels.program ProgramUnit.labels.symbols {}).outcome = .ok a
      ∧ a.object.buffers = [[1, 0xC0, 0, 0]]
      ∧ SymbolValues ProgramUnit.labels.program (ProgramUnit.labels.symbols.bindImports [])
        (assemble ProgramUnit.labels.program ProgramUnit.labels.symbols {}).symbols a
  := by
  have hlower : Document.labels.lower 0 = .ok .labels := rfl
  obtain ⟨a, ha, hbuffers⟩ := Except.map_eq_ok_iff.mp buffers_assemble_labels
  exact ⟨hlower, a, ha, hbuffers, assemble_symbolValues (.document hlower) ha⟩

/-! ### Labels on both sides of an origin -/

/-- Around a line of a section, the order of the lines is that of the section. -/
theorem exists_sectionOrder_eq {sections : List Section} {s : Section} (hs : s ∈ sections)
    {before between after : List NumberedLine} {l m : NumberedLine}
    (hlines : s.lines = before ++ l :: (between ++ m :: after)) :
  ∃ before' after', sectionOrder sections = before' ++ l :: (between ++ m :: after')
  := by
  obtain ⟨front, back, rfl⟩ := List.append_of_mem hs
  use sectionOrder front ++ before, after ++ sectionOrder back
  simp [sectionOrder, hlines]

/-- A label on a line without bytes stands for the next byte of its section if the line is walked
forward, and for the address below that byte if it is walked backward. -/
theorem value?_of_label_without_bytes {u : ProgramUnit} {options : Options} {a : Assembly}
    (hu : u.Labelled) (h : (assemble u.program u.symbols options).outcome = .ok a)
    {s : Section} (hs : s ∈ a.sections) {before between after : List NumberedLine}
    {l m : NumberedLine} (hlines : s.lines = before ++ l :: (between ++ m :: after))
    {i : SymbolId} (hi : l.line.symbol? = some i)
    (hkind : ∀ argument, l.line.kind ≠ .equate argument) (hl : a.addresses.get? l.id = none)
    (hbetween : Idle a.addresses between) {e : Address} (hm : a.addresses.get? m.id = some e) :
  (assemble u.program u.symbols options).symbols.value? i
    = some (.location {
      address := if l ∈ walkedForward (sectionOrder a.sections) then e.address else e.address - 1
      size := 0
      addressWidth := 2
      offset := 0
      kind := .object })
  := by
  obtain ⟨front, back, horder⟩ := exists_sectionOrder_eq hs hlines
  have hmem : l ∈ u.program.numbered := by
    rw [← mem_sectionOrder_iff h, horder]
    simp
  obtain ⟨address, hvalue, -, hnext⟩ := exists_location_of_idle hu h hmem hi hkind hl
  rw [hvalue, hnext horder hbetween hm]

/-- A document with a label before an `.ORG`, on a line without bytes. -/
def Document.hanging : Document where
  lines := [
    { operation := .block (.decimal 0), symbol? := some "here" },
    { operation := .byte (.decimal 1) },
    { operation := .org (.hexadecimal 0x0100) }]

/-- The program and the symbols of the document `hanging`. -/
def ProgramUnit.hanging : ProgramUnit where
  program := [
    { kind := .block (.literal (.decimal 0)), symbol? := some 0 },
    { kind := .data .byte (.literal (.decimal 1)) },
    { kind := .origin .org (.literal (.hexadecimal 0x0100)) }]
  symbols := {
    id := 0
    entries := [{ name := "here", state := .single }] }

theorem layout_hanging :
  (assemble ProgramUnit.hanging.program ProgramUnit.hanging.symbols {}).outcome.map
    (fun a => (a.sections.map (·.lines), a.addresses.get? 0, a.addresses.get? 1))
    = .ok ([ProgramUnit.hanging.program.numbered], none, some ⟨0xFF, 1⟩)
  := by
  cbv

theorem value?_hanging :
  (assemble ProgramUnit.hanging.program ProgramUnit.hanging.symbols {}).symbols.value? 0
    = some (.location
      { address := 0xFE, size := 0, addressWidth := 2, offset := 0, kind := .object })
  := by
  cbv

/-- In the document `hanging` a byte follows the label, and both are walked backward. -/
theorem exists_assemble_hanging :
  ∃ a s l m after,
    (assemble ProgramUnit.hanging.program ProgramUnit.hanging.symbols {}).outcome = .ok a
    ∧ s ∈ a.sections ∧ s.lines = [] ++ l :: ([] ++ m :: after)
    ∧ l ∉ walkedForward (sectionOrder a.sections) ∧ l.line.symbol? = some 0
    ∧ (∀ argument, l.line.kind ≠ .equate argument) ∧ a.addresses.get? l.id = none
    ∧ a.addresses.get? m.id = some ⟨0xFF, 1⟩
  := by
  obtain ⟨a, ha, heq⟩ := Except.map_eq_ok_iff.mp layout_hanging
  rw [Prod.mk.injEq, Prod.mk.injEq] at heq
  obtain ⟨hsections, hlabel, hbyte⟩ := heq
  obtain ⟨s, rest, hs, hlines, hrest⟩ := List.map_eq_cons_iff.mp hsections
  cases List.map_eq_nil_iff.mp hrest
  refine ⟨a, s, _, _, _, ha, by simp [hs], hlines, ?_, rfl, nofun, hlabel, hbyte⟩
  rw [hs, sectionOrder, List.flatMap_singleton, hlines]
  decide

theorem value?_of_label_without_bytes_hanging :
  Document.hanging.lower 0 = .ok .hanging
    ∧ (∃ a, (assemble ProgramUnit.hanging.program ProgramUnit.hanging.symbols {}).outcome = .ok a)
    ∧ (assemble ProgramUnit.hanging.program ProgramUnit.hanging.symbols {}).symbols.value? 0
      = some (.location
        { address := 0xFF - 1, size := 0, addressWidth := 2, offset := 0, kind := .object })
  := by
  have hlower : Document.hanging.lower 0 = .ok .hanging := rfl
  obtain ⟨a, s, l, m, after, ha, hs, hlines, hbackward, hi, hkind, hlabel, hbyte⟩ :=
    exists_assemble_hanging
  have hvalue := value?_of_label_without_bytes (.document hlower) ha hs hlines hi hkind hlabel
    (.nil _) hbyte
  rw [if_neg hbackward] at hvalue
  exact ⟨hlower, ⟨a, ha⟩, hvalue⟩

/-- A label on a line without bytes that is walked backward need not stand for the next byte. -/
theorem not_forall_value?_eq_next_of_backward :
  ¬ ∀ (d : Document) (id : TableId) (u : ProgramUnit) (options : Options) (a : Assembly)
    (s : Section) (before between after : List NumberedLine) (l m : NumberedLine) (i : SymbolId)
    (e : Address),
    d.lower id = .ok u → (assemble u.program u.symbols options).outcome = .ok a →
    s ∈ a.sections → s.lines = before ++ l :: (between ++ m :: after) →
    l ∉ walkedForward (sectionOrder a.sections) → l.line.symbol? = some i →
    (∀ argument, l.line.kind ≠ .equate argument) → a.addresses.get? l.id = none →
    Idle a.addresses between → a.addresses.get? m.id = some e →
    (assemble u.program u.symbols options).symbols.value? i
      = some (.location
        { address := e.address, size := 0, addressWidth := 2, offset := 0, kind := .object })
  := by
  intro h
  have hlower : Document.hanging.lower 0 = .ok .hanging := rfl
  obtain ⟨a, s, l, m, after, ha, hs, hlines, hbackward, hi, hkind, hlabel, hbyte⟩ :=
    exists_assemble_hanging
  have hvalue := h .hanging 0 .hanging {} a s [] [] after l m 0 ⟨0xFF, 1⟩ hlower ha hs hlines
    hbackward hi hkind hlabel (.nil _) hbyte
  rw [value?_hanging] at hvalue
  revert hvalue
  decide

end Pep10
