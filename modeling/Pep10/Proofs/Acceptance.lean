import Pep10.Proofs.Layout.Success
import Pep10.Proofs.Lowering
import Pep10.Proofs.ObjectCode
import Pep10.Proofs.Reassembly
import Pep10.Proofs.Resolution

/-!
# Acceptance

Which documents can be assembled.  Splitting a program looks at its labels and the flags of its
sections, laying it out at the operands of origins and of `.EQUATE`s, and emitting it at the lines
of sections with bytes.  Nothing else can go wrong: the checks on the tables of an assembly never
fail.
-/

namespace Pep10

/-! ### Labels -/

/-- Binding imports does not count as a declaration. -/
theorem SymbolTable.Records.isSingle_iff {declared : List String} {t : SymbolTable}
    (h : t.Records declared) (linked : List SymbolTable) {i : SymbolId} {name : String}
    (hi : t.name? i = some name) :
  (∃ e, (t.bindImports linked).get? i = some e ∧ e.isSingle) ↔ declared.count name = 1
  := by
  obtain ⟨e, he, rfl⟩ := Option.map_eq_some_iff.mp hi
  have hget : (t.bindImports linked).get? i = some (e.bindImport linked) := by
    rw [SymbolTable.get?_bindImports, he, Option.map_some]
  rw [hget, ← DefinitionState.ofCount_eq_single_iff, ← h.state_eq e (List.mem_of_getElem? he)]
  simp [SymbolEntry.isSingle, SymbolEntry.state_bindImport]

theorem map_name?_symbols {t : SymbolTable} {lines : List SourceLine} {program : Program}
    (h : List.Forall₂ (SourceLine.LoweredTo t) lines program) :
  (program.filterMap (·.symbol?)).map t.name? = (lines.filterMap (·.symbol?)).map some
  := by
  induction h with
  | nil => rfl
  | @cons s l lines program hl _ ih =>
      have hsymbol := hl.symbol
      cases hs : s.symbol? with
      | none =>
          have hl' : l.symbol? = none := by simpa [hs] using hsymbol
          rw [List.filterMap_cons_none hs, List.filterMap_cons_none hl', ih]
      | some name =>
          obtain ⟨i, hi, hname⟩ : ∃ i, l.symbol? = some i ∧ t.name? i = some name := by
            simpa [hs] using hsymbol
          rw [List.filterMap_cons_some hs, List.filterMap_cons_some hi, List.map_cons,
            List.map_cons, ih, hname]

theorem Program.forall_mem_numbered_iff {program : Program} {P : Line → Prop} :
  (∀ l ∈ program.numbered, P l.line) ↔ ∀ l ∈ program, P l
  := by
  rw [← List.forall_mem_map, map_line_numbered]

/-- The labels of a document pass the check when no name is declared twice. -/
theorem forall_checkLabel_iff {d : Document} {id : TableId} {u : ProgramUnit}
    (hlower : d.lower id = .ok u) (linked : List SymbolTable) :
  (∀ l ∈ u.program.numbered, Split.checkLabel (u.symbols.bindImports linked) l = .ok ())
    ↔ (d.lines.filterMap (·.symbol?)).Nodup
  := by
  obtain ⟨-, hrecords, hlines⟩ := Document.lower_eq_ok hlower
  have hnames := map_name?_symbols hlines
  simp only [checkLabel_eq_ok_iff, List.nodup_iff_count_eq_one]
  apply (Program.forall_mem_numbered_iff (P := fun l => ∀ i ∈ l.symbol?,
    ∃ e, (u.symbols.bindImports linked).get? i = some e ∧ e.isSingle)).trans
  constructor
  · intro h name hname
    have hmem := List.mem_map_of_mem (f := some) hname
    rw [← hnames] at hmem
    obtain ⟨i, hi, hname⟩ := List.mem_map.mp hmem
    obtain ⟨l, hl, hi⟩ := List.mem_filterMap.mp hi
    apply (hrecords.isSingle_iff linked hname).mp (h l hl i hi)
  · intro h l hl i hi
    have hmem := List.mem_map_of_mem (f := u.symbols.name?) (List.mem_filterMap.mpr ⟨l, hl, hi⟩)
    rw [hnames] at hmem
    obtain ⟨name, hname, hi⟩ := List.mem_map.mp hmem
    apply (hrecords.isSingle_iff linked hi.symm).mpr (h name hname)

/-! ### Encodings -/

theorem opcode_of_isUnary {m : Mnemonic} (h : m.isUnary) :
  ∃ op, opcode m none = .ok op
  := by
  rw [Mnemonic.isUnary, Bool.or_eq_true, decide_eq_true_eq, decide_eq_true_eq] at h
  obtain h | h := h
  · simp [opcode, h]
  · simp [opcode, h]

variable {resolve : SymbolRef → Option UInt64}

/-- An operand can be written in a number of bytes when it is a literal with a value in them, or a
symbol whose value, if it has one, fits. -/
theorem exists_digits_iff {width : UInt8} (h₁ : 1 ≤ width.toNat) (h₈ : width.toNat ≤ 8)
    (a : Argument) :
  (∃ bytes v, a.HasValue resolve width v ∧ Digits width.toNat v bytes)
    ↔ (∃ v, a.constant width = .ok (some v))
      ∨ ∃ r, a.symbol? = some r ∧ ∀ v, resolve r = some v → v.toNat < capacity width.toNat
  := by
  have hdigits : ∀ v : UInt64, v.toNat < capacity width.toNat →
      Digits width.toNat v (toBigEndian width.toNat v) :=
    fun v hv => (digits_iff h₈).mpr ⟨hv, rfl⟩
  constructor
  · rintro ⟨bytes, v, hv, hbytes⟩
    have hlt := ((digits_iff h₈).mp hbytes).1
    cases hv with
    | constant h => exact .inl ⟨v, h⟩
    | resolved h =>
        refine .inr ⟨_, rfl, ?_⟩
        intro w hw
        cases h.symm.trans hw
        apply hlt
    | unresolved h =>
        refine .inr ⟨_, rfl, ?_⟩
        intro w hw
        cases h.symm.trans hw
  · rintro (⟨v, hv⟩ | ⟨r, hr, hfits⟩)
    · cases a with
      | literal l =>
          have hvalue : (Argument.literal l).HasValue resolve width v := .constant hv
          have hlt := Literal.toNat_value_lt h₁ h₈ (Argument.hasValue_literal_iff.mp hvalue)
          exact ⟨_, v, hvalue, hdigits v hlt⟩
      | symbolic name r => cases hv
    · cases a with
      | literal l => cases hr
      | symbolic name _ =>
          cases hr
          cases hv : resolve r with
          | none => exact ⟨_, 0, .unresolved hv, hdigits 0 (capacity_pos _)⟩
          | some v => exact ⟨_, v, .resolved hv, hdigits v (hfits v hv)⟩

/-- A line that can be emitted where it takes bytes. -/
def Line.Encodable (resolve : SymbolRef → Option UInt64) (l : Line) : Prop :=
  match l.kind with
  | .dyadic m mode a => (∃ op, opcode m mode = .ok op)
      ∧ (a.symbol?.isSome ∨ ∃ v, a.constant 2 = .ok (some v))
  | .data .word a => a.symbol?.isSome ∨ ∃ v, a.constant 2 = .ok (some v)
  | .data .byte a => (∃ v, a.constant 1 = .ok (some v))
      ∨ ∃ r, a.symbol? = some r ∧ ∀ v, resolve r = some v → v.toNat ≤ 255
  | .data .ascii a => ∀ bytes, a.bytes? = some bytes → bytes.length ≤ 65535
  | _ => True

/-- A line takes bytes that can be encoded when it is encodable. -/
theorem Line.exists_encodes_iff {l : Line} {base : UInt16} (hlowered : l.kind.Lowered)
    (hwords : ∀ r v, resolve r = some v → v.toNat < 65536) (hsize : l.size base ≠ 0) :
  (∃ bytes, Encodes resolve (l.size base).toNat bytes l.kind) ↔ l.Encodable resolve
  := by
  have hword : ∀ a : Argument, (∃ bytes v, a.HasValue resolve 2 v ∧ Digits 2 v bytes)
      ↔ a.symbol?.isSome ∨ ∃ v, a.constant 2 = .ok (some v) := by
    intro a
    apply (exists_digits_iff (by decide) (by decide) a).trans
    rw [or_comm, Option.isSome_iff_exists]
    apply or_congr_left
    apply exists_congr
    intro r
    apply and_iff_left
    apply hwords r
  obtain ⟨kind, symbol?, comment?⟩ := l
  cases kind with
  | monadic m =>
      obtain ⟨op, hop⟩ := opcode_of_isUnary hlowered
      apply iff_of_true ⟨[op], op, hop, rfl⟩ trivial
  | dyadic m mode a =>
      simp only [Encodes, Encodable, ← hword]
      constructor
      · rintro ⟨bytes, op, v, digits, hop, hv, hdigits, rfl⟩
        exact ⟨⟨op, hop⟩, digits, v, hv, hdigits⟩
      · rintro ⟨⟨op, hop⟩, digits, v, hv, hdigits⟩
        exact ⟨_, op, v, digits, hop, hv, hdigits, rfl⟩
  | align a => apply iff_of_true ⟨_, rfl⟩ trivial
  | block a => apply iff_of_true ⟨_, rfl⟩ trivial
  | data kind a =>
      cases kind with
      | ascii =>
          obtain ⟨text, htext⟩ := Option.isSome_iff_exists.mp hlowered
          simp only [Encodes, Encodable, size, size?, htext, Option.some_inj, Option.map_some,
            Option.getD_some, toNat_ofNat_min, exists_eq_left', forall_eq']
          omega
      | byte =>
          have hbyte : ∀ v : UInt64, v.toNat < capacity (1 : UInt8).toNat ↔ v.toNat ≤ 255 :=
            fun v => Nat.lt_succ_iff
          apply (exists_digits_iff (by decide) (by decide) a).trans
          simp only [hbyte, Encodable]
      | word => apply hword a
  | _ => cases hsize rfl

theorem Line.encodable_of_size_eq_zero {l : Line} {base : UInt16} (hsize : l.size base = 0) :
  l.Encodable resolve
  := by
  obtain ⟨kind, symbol?, comment?⟩ := l
  cases kind with
  | dyadic m mode a => cases hsize
  | data kind a =>
      cases kind with
      | ascii =>
          intro text htext
          have hlength := congrArg UInt16.toNat hsize
          simp only [size, size?, htext, Option.map_some, Option.getD_some,
            toNat_ofNat_min, UInt16.toNat_zero] at hlength
          omega
      | byte => cases hsize
      | word => cases hsize
  | _ => trivial

/-! ### Emission -/

variable {addresses : LineTable Address}

theorem Sized.exists_encodeLine_iff {lines : List NumberedLine} (hsized : Sized addresses lines)
    {l : NumberedLine} (hl : l ∈ lines) (hlowered : l.line.kind.Lowered)
    (hwords : ∀ r v, resolve r = some v → v.toNat < 65536) :
  (∀ e, addresses.get? l.id = some e → ∃ code, encodeLine resolve l e.size.toNat = .ok code)
    ↔ l.line.Encodable resolve
  := by
  cases he : addresses.get? l.id with
  | none =>
      obtain ⟨base, hbase⟩ := hsized.of_none l hl he
      apply iff_of_true
      · intro e he'
        cases he'
      · apply Line.encodable_of_size_eq_zero hbase
  | some e =>
      obtain ⟨hne, base, hbase⟩ := hsized.of_some l hl e he
      rw [hbase] at hne
      rw [← Line.exists_encodes_iff hlowered hwords hne, ← hbase]
      simp only [Option.some_inj, forall_eq', hsized.encodeLine_eq_ok_iff hl he]
      constructor
      · rintro ⟨code, hcode, -⟩
        exact ⟨_, hcode⟩
      · rintro ⟨bytes, hbytes⟩
        exact ⟨⟨bytes, _⟩, hbytes, rfl⟩

/-- The lines of a section are encodable, if it has bytes. -/
def Section.Encodable (resolve : SymbolRef → Option UInt64) (s : Section) : Prop :=
  ¬ s.isZeroed → ∀ l ∈ s.lines, l.line.Encodable resolve

theorem Section.exists_emits_iff {s : Section} {index : Nat} (hsized : Sized addresses s.lines)
    (hlowered : ∀ l ∈ s.lines, l.line.kind.Lowered)
    (hwords : ∀ r v, resolve r = some v → v.toNat < 65536) :
  (∃ code, s.Emits addresses resolve index code) ↔ s.Encodable resolve
  := by
  by_cases hs : s.isZeroed
  · simp [Emits, Encodable, hs]
  · simp only [Emits, if_neg hs, exists_emitted_iff]
    rw [Encodable, imp_iff_right hs]
    apply forall₂_congr
    intro l hl
    apply hsized.exists_encodeLine_iff hl (hlowered l hl) hwords

theorem exists_emitsAll_iff {xs : List (Section × Nat)} :
  (∃ codes, EmitsAll addresses resolve xs codes)
    ↔ ∀ x ∈ xs, ∃ code, x.1.Emits addresses resolve x.2 code
  := by
  induction xs with
  | nil => apply iff_of_true ⟨[], .nil⟩ (by simp)
  | cons x xs ih =>
      rw [List.forall_mem_cons, ← ih]
      constructor
      · rintro ⟨_, _ | ⟨hx, hxs⟩⟩
        exact ⟨⟨_, hx⟩, _, hxs⟩
      · rintro ⟨⟨code, hx⟩, codes, hxs⟩
        exact ⟨code :: codes, .cons hx hxs⟩

/-- Sections that have been laid out are emitted when they are encodable. -/
theorem exists_emit_iff {sections laid : List Section}
    (hunplaced : laid.map Section.unplaced = sections.map Section.unplaced)
    (hlaid : ∀ s ∈ laid, Sized addresses s.lines
      ∧ s.bounds.byteCount = (s.lines.map addresses.sizeAt).sum)
    (hlowered : ∀ l ∈ sectionOrder sections, l.line.kind.Lowered)
    (hwords : ∀ r v, resolve r = some v → v.toNat < 65536) :
  (∃ object, emit laid addresses resolve = .ok object)
    ↔ ∀ s ∈ sections, s.Encodable resolve
  := by
  have hemit : (∃ object, emit laid addresses resolve = .ok object)
      ↔ ∃ codes, EmitsAll addresses resolve laid.zipIdx codes := by
    simp only [emit_eq_ok_iff hlaid]
    constructor
    · rintro ⟨object, codes, hcodes, -⟩
      exact ⟨codes, hcodes⟩
    · rintro ⟨codes, hcodes⟩
      exact ⟨_, codes, hcodes, rfl⟩
  have hsection : ∀ x ∈ laid.zipIdx, (∃ code, x.1.Emits addresses resolve x.2 code)
      ↔ x.1.Encodable resolve := by
    intro x hx
    have hx' : x.1 ∈ laid := List.fst_mem_of_mem_zipIdx hx
    apply Section.exists_emits_iff (hlaid _ hx').1 _ hwords
    intro l hl
    apply hlowered
    rw [← sectionOrder_eq_of_unplaced hunplaced]
    apply List.mem_flatMap_of_mem hx' hl
  have hsections : (∀ s ∈ laid.map Section.unplaced, s.Encodable resolve)
      ↔ ∀ s ∈ sections.map Section.unplaced, s.Encodable resolve := by
    rw [hunplaced]
  rw [List.forall_mem_map, List.forall_mem_map] at hsections
  rw [hemit, exists_emitsAll_iff, forall₂_congr hsection]
  rw [← List.forall_mem_map (f := Prod.fst) (P := Section.Encodable resolve),
    List.zipIdx_map_fst]
  apply hsections

/-! ### Layout -/

theorem Argument.exists_constant_iff {a : Argument} {width : UInt8} :
  (∃ v?, a.constant width = .ok v?)
    ↔ a.symbol?.isSome ∨ ∃ v, a.constant width = .ok (some v)
  := by
  cases a with
  | symbolic name r => simp [constant, symbol?]
  | literal l =>
      cases h : l.value width with
      | error e => simp [constant, symbol?, h, Except.map]
      | ok v => simp [constant, symbol?, h, Except.map]

theorem NumberedLine.not_isOrg_iff {l : NumberedLine} :
  ¬ l.IsOrg ↔ ∀ a, l.line.kind ≠ .origin .org a
  := by
  simp [IsOrg, ← origin?_eq_some_iff, Option.eq_none_iff_forall_ne_some]

theorem Line.placeable_iff {l : Line} :
  l.Placeable
    ↔ (∀ a, l.kind = .origin .org a → ∃ v, a.constant 2 = .ok (some v))
      ∧ ∀ a, l.kind = .equate a → l.symbol?.isSome →
        a.symbol?.isSome ∨ ∃ v, a.constant 2 = .ok (some v)
  := by
  simp only [Placeable, ← Argument.exists_constant_iff]
  cases l.kind with
  | origin o a =>
      cases o with
      | org => simp
      | burn => simp
  | equate a => simp
  | _ => simp

/-- The origins of a program have the values that its layout needs, and the `.EQUATE`s that declare
a symbol have one for it.  A `.BURN` is only read if it is the first one and there is no `.ORG`. -/
structure Program.Placeable (initial : Heading) (program : Program) : Prop where
  org : ∀ l ∈ program, ∀ a, l.kind = .origin .org a → ∃ v, a.constant 2 = .ok (some v)
  burn : (∀ l ∈ program, ∀ a, l.kind ≠ .origin .org a) → ∀ l a,
    (sectionOrder (outline initial program.numbered)).find? (fun l => (l.origin? .burn).isSome)
      = some l →
    l.line.kind = .origin .burn a → ∃ v, a.constant 2 = .ok (some v)
  equate : ∀ l ∈ program, ∀ a, l.kind = .equate a → l.symbol?.isSome →
    a.symbol?.isSome ∨ ∃ v, a.constant 2 = .ok (some v)

section

variable {initial : Heading} {program : Program}

theorem forall_mem_sectionOrder_outline_iff {P : Line → Prop} :
  (∀ l ∈ sectionOrder (outline initial program.numbered), P l.line) ↔ ∀ l ∈ program, P l
  := by
  simp only [(sectionOrder_outline_perm initial program.numbered).mem_iff,
    Program.forall_mem_numbered_iff]

theorem exists_assign_iff {owner : TableId} {base : UInt16} :
  (∃ laid, (assign owner (outline initial program.numbered) base).outcome = .ok laid)
    ↔ program.Placeable initial
  := by
  have hlines : (∀ l ∈ sectionOrder (outline initial program.numbered), l.line.Placeable)
      ↔ ∀ l ∈ program, l.Placeable :=
    forall_mem_sectionOrder_outline_iff
  have horg : (∀ l ∈ sectionOrder (outline initial program.numbered), ¬ l.IsOrg)
      ↔ ∀ l ∈ program, ∀ a, l.kind ≠ .origin .org a := by
    simp only [NumberedLine.not_isOrg_iff]
    apply forall_mem_sectionOrder_outline_iff (P := fun l => ∀ a, l.kind ≠ .origin .org a)
  rw [assign_isOk_iff (outline_ne_nil _ _)]
  constructor
  · rintro ⟨hanchor, hplaceable⟩
    rw [anchor_isOk_iff hplaceable, horg] at hanchor
    rw [hlines] at hplaceable
    refine {
      org := fun l hl => (Line.placeable_iff.mp (hplaceable l hl)).1
      burn := ?_
      equate := fun l hl => (Line.placeable_iff.mp (hplaceable l hl)).2 }
    intro hnone l a hl ha
    apply hanchor hnone l a hl (NumberedLine.origin?_eq_some_iff.mpr ha)
  · intro h
    have hplaceable := hlines.mpr fun l hl =>
      Line.placeable_iff.mpr ⟨h.org l hl, h.equate l hl⟩
    rw [anchor_isOk_iff hplaceable, horg]
    refine ⟨?_, hplaceable⟩
    intro hnone l a hl ha
    apply h.burn hnone l a hl (NumberedLine.origin?_eq_some_iff.mp ha)

end

/-! ### Assembling -/

/-- A table left by the assembly of a document. -/
def SymbolTable.IsAssembled (t : SymbolTable) : Prop :=
  ∃ (d : Document) (id : TableId) (u : ProgramUnit) (options : Options),
    d.lower id = .ok u ∧ t = (assemble u.program u.symbols options).symbols

theorem SymbolTable.IsAssembled.words {t : SymbolTable} (h : t.IsAssembled) :
  t.Words
  := by
  obtain ⟨d, id, u, options, hlower, rfl⟩ := h
  obtain ⟨-, hrecords, -⟩ := Document.lower_eq_ok hlower
  apply assemble_words
  intro e he
  rw [hrecords.value_eq e he]
  trivial

theorem forall_lowered {t : SymbolTable} {lines : List SourceLine} {program : Program}
    (h : List.Forall₂ (SourceLine.LoweredTo t) lines program) :
  ∀ l ∈ program, l.kind.Lowered
  := by
  induction h with
  | nil => simp
  | cons hl _ ih =>
      rw [List.forall_mem_cons]
      use hl.kind, ih

/-- What a document and the program it lowers to have to satisfy to be assembled. -/
structure Acceptable (d : Document) (program : Program) (initial : Heading)
    (resolve : SymbolRef → Option UInt64) : Prop where
  /-- No name is declared by two lines. -/
  labels : (d.lines.filterMap (·.symbol?)).Nodup
  /-- Every heading has the flags of the first one of its name. -/
  flags : ∀ h ∈ headings initial program.numbered,
    ((headings initial program.numbered).find? (·.name = h.name)).map (·.flags) = some h.flags
  placeable : program.Placeable initial
  encodable : ∀ s ∈ outline initial program.numbered, s.Encodable resolve

/-- A document is assembled exactly when it is acceptable. -/
theorem assemble_isOk_iff_acceptable {d : Document} {id : TableId} {u : ProgramUnit}
    {options : Options} (hlower : d.lower id = .ok u)
    (hlinked : ∀ t ∈ options.linked, t.IsAssembled) :
  (∃ a, (assemble u.program u.symbols options).outcome = .ok a)
    ↔ Acceptable d u.program options.initial
      ((assemble u.program u.symbols options).symbols.resolveRef · options.linked)
  := by
  have hwords : ∀ r v,
      (assemble u.program u.symbols options).symbols.resolveRef r options.linked = some v →
      v.toNat < 65536 := by
    intro r v
    apply SymbolTable.resolveRef_lt
    · apply SymbolTable.IsAssembled.words
      exact ⟨d, id, u, options, hlower, rfl⟩
    · intro t ht
      apply (hlinked t ht).words
  have hlowered : ∀ l ∈ sectionOrder (outline options.initial u.program.numbered),
      l.line.kind.Lowered := by
    rw [forall_mem_sectionOrder_outline_iff (P := fun l => l.kind.Lowered)]
    apply forall_lowered (Document.lower_eq_ok hlower).2.2
  have hsections : ∀ {sections},
      u.program.sections (u.symbols.bindImports options.linked) options.initial = .ok sections
      ↔ (d.lines.filterMap (·.symbol?)).Nodup
        ∧ Consistent (headings options.initial u.program.numbered)
        ∧ sections = outline options.initial u.program.numbered := by
    intro sections
    rw [Program.sections_eq_ok_iff, forall_checkLabel_iff hlower]
  constructor
  · rintro ⟨a, ha⟩
    obtain ⟨sections, laid, object, hsplit, hassign, hemit, -⟩ := assemble_eq_ok_iff.mp ha
    obtain ⟨hunplaced, hlaid⟩ := assign_laid hsplit hassign
    obtain ⟨hlabels, hflags, rfl⟩ := hsections.mp hsplit
    exact {
      labels := hlabels
      flags := consistent_iff_find?.mp hflags
      placeable := exists_assign_iff.mp ⟨laid, hassign⟩
      encodable := (exists_emit_iff hunplaced hlaid hlowered hwords).mp ⟨object, hemit⟩ }
  · intro h
    have hsplit := hsections.mpr ⟨h.labels, consistent_iff_find?.mpr h.flags, rfl⟩
    obtain ⟨laid, hassign⟩ := exists_assign_iff.mpr h.placeable
    obtain ⟨hunplaced, hlaid⟩ := assign_laid hsplit hassign
    obtain ⟨object, hemit⟩ := (exists_emit_iff hunplaced hlaid hlowered hwords).mpr h.encodable
    exact ⟨_, assemble_eq_ok_iff.mpr ⟨_, laid, object, hsplit, hassign, hemit, rfl⟩⟩

/-- A document that exports a constant. -/
def Document.library : Document where
  lines := [
    { operation := .exported "limit" },
    { operation := .equate (.decimal 200), symbol? := some "limit" }]

/-- The program and the symbols of the document `library`. -/
def ProgramUnit.library : ProgramUnit where
  program := [
    { kind := .annotate .exported (.symbolic "limit" ⟨1, 0⟩) },
    { kind := .equate (.literal (.decimal 200)), symbol? := some 0 }]
  symbols := {
    id := 1
    entries := [{ name := "limit", binding := .global, state := .single }] }

/-- A document that imports a constant that fits into a byte, and has a larger one where no bytes
are emitted. -/
def Document.client : Document where
  lines := [
    { operation := .imported "limit" },
    { operation := .byte (.symbol "limit") },
    { operation := .burn (.symbol "limit") },
    { operation := .org (.hexadecimal 0x0100) },
    { operation := .opening "zeros" "wz" },
    { operation := .byte (.decimal 300) }]

/-- The program and the symbols of the document `client`. -/
def ProgramUnit.client : ProgramUnit where
  program := [
    { kind := .annotate .imported (.symbolic "limit" ⟨0, 0⟩) },
    { kind := .data .byte (.symbolic "limit" ⟨0, 0⟩) },
    { kind := .origin .burn (.symbolic "limit" ⟨0, 0⟩) },
    { kind := .origin .org (.literal (.hexadecimal 0x0100)) },
    { kind := .opening ⟨"zeros", { writable := true, zeroed := true }⟩ },
    { kind := .data .byte (.literal (.decimal 300)) }]
  symbols := {
    id := 0
    entries := [{ name := "limit", binding := .imported }] }

/-- The options that link the document `client` with the document `library`. -/
def Options.client : Options where
  linked := [(assemble ProgramUnit.library.program ProgramUnit.library.symbols {}).symbols]

theorem isAssembled_of_mem_linked_client :
  ∀ t ∈ Options.client.linked, t.IsAssembled
  := by
  rw [Options.client, List.forall_mem_singleton]
  exact ⟨.library, 1, .library, {}, rfl, rfl⟩

theorem buffers_assemble_client :
  (assemble ProgramUnit.client.program ProgramUnit.client.symbols .client).outcome.map
    (·.object.buffers) = .ok [[200], []]
  := by
  cbv

theorem assemble_isOk_iff_acceptable_client :
  Document.client.lower 0 = .ok .client
    ∧ Options.client.linked ≠ []
    ∧ (∀ t ∈ Options.client.linked, t.IsAssembled)
    ∧ (∃ a, (assemble ProgramUnit.client.program ProgramUnit.client.symbols .client).outcome
      = .ok a)
    ∧ Acceptable .client ProgramUnit.client.program .text
      ((assemble ProgramUnit.client.program ProgramUnit.client.symbols .client).symbols.resolveRef
        · Options.client.linked)
  := by
  have hlower : Document.client.lower 0 = .ok .client := rfl
  obtain ⟨a, ha, -⟩ := Except.map_eq_ok_iff.mp buffers_assemble_client
  refine ⟨hlower, by simp [Options.client], isAssembled_of_mem_linked_client, ⟨a, ha⟩, ?_⟩
  apply (assemble_isOk_iff_acceptable hlower isAssembled_of_mem_linked_client).mp ⟨a, ha⟩

end Pep10
