import Pep10.Assembly
import Pep10.Proofs.Emission
import Pep10.Proofs.Layout.Law
import Mathlib.Tactic

/-!
# Assembled programs

What the parts of an assembled program have to do with each other.  Each section with bytes is the
sequence of the encodings of its lines, the spans say where they stand, and the relocations are
the operands without a value.
-/

namespace Pep10

/-! ### Sections that have been laid out -/

namespace Section.LaidOut

variable {owner : TableId} {index : Nat} {s : Section} {t : LineTable Address}
  {ps : List Placement}

theorem sized (h : s.LaidOut owner index ps) (ht : Entered t ps) :
  Sized t s.lines
  := by
  rw [← h.lines]
  constructor
  · intro l hl e he
    obtain ⟨p, hp, rfl⟩ := List.mem_map.mp hl
    rw [ht.get?_eq p hp] at he
    split at he
    · cases he
    · next hsize =>
      cases he
      use hsize, p.base, (ht.faithful p hp).size_eq
  · intro l hl he
    obtain ⟨p, hp, rfl⟩ := List.mem_map.mp hl
    rw [ht.get?_eq p hp] at he
    split at he
    · next hsize =>
      use p.base
      rw [← (ht.faithful p hp).size_eq, hsize]
    · cases he

/-- The size of a section is the sum of those in the address table. -/
theorem byteCount_eq (h : s.LaidOut owner index ps) (ht : Entered t ps) :
  s.bounds.byteCount = (s.lines.map t.sizeAt).sum
  := by
  rw [h.byteCount, totalSize_eq_sum, ← h.lines, List.map_map]
  congr 1
  apply List.map_congr_left
  intro p hp
  rw [Function.comp_apply, LineTable.sizeAt, ht.get?_eq p hp]
  split
  · next hsize =>
    rw [hsize]
    rfl
  · rfl

end Section.LaidOut

section

variable {program : Program} {symbols : SymbolTable} {initial : Heading}
  {sections laid : List Section} {base : UInt16}

/-- Each section of a layout is laid out from the anchor, with the placements that the address
table was made from. -/
theorem exists_laidOutFrom (hsections : program.sections symbols initial = .ok sections)
    (hassign : (assign symbols.id sections base).outcome = .ok laid) {s : Section}
    (hs : s ∈ laid) :
  ∃ a c d below above, Sides base (sectionOrder sections)
      (assign symbols.id sections base).addresses c a.origin d below above
    ∧ below.map (·.line) = a.below sections ∧ above.map (·.line) = a.above sections
    ∧ ∃ i ps, linesAt sections i = s.lines ∧ s.LaidOutFrom symbols.id a i ps
      ∧ Entered (assign symbols.id sections base).addresses ps
  := by
  obtain ⟨a, p, below, above, rfl, hfrontier, hsides⟩ := assign_sides hsections hassign
  refine ⟨a, _, _, below, above, hsides, hfrontier.below_lines, ?_, ?_⟩
  · rw [hfrontier.above_lines, List.take_length]
    rfl
  obtain ⟨i, hi⟩ := List.mem_iff_getElem?.mp hs
  have hlength : p.sections.length = sections.length := by
    simpa using congrArg List.length hfrontier.unplaced_eq
  have hlt : i < sections.length := by
    rw [← hlength]
    apply (List.getElem?_eq_some_iff.mp hi).1
  obtain ⟨qs, hlaid, hqs⟩ := hfrontier.laidOut i s (Nat.zero_le i) hlt hi
  refine ⟨i, qs, ?_, hlaid, ?_⟩
  · rw [← Frontier.lines_eq hfrontier.unplaced_eq, Progress.lines, hi]
    rfl
  · apply hsides.entered.subset
    intro q hq
    apply hfrontier.perm.mem_iff.mp (hqs hq)

theorem exists_laidOut (hsections : program.sections symbols initial = .ok sections)
    (hassign : (assign symbols.id sections base).outcome = .ok laid) {s : Section}
    (hs : s ∈ laid) :
  ∃ i ps, s.LaidOut symbols.id i ps ∧ Entered (assign symbols.id sections base).addresses ps
  := by
  obtain ⟨a, _, _, _, _, _, _, _, i, ps, _, hlaid, hentered⟩ :=
    exists_laidOutFrom hsections hassign hs
  use i, ps, ⟨a, hlaid⟩

/-- A layout leaves the sections as they are, up to their bounds, which have the sizes of the
lines. -/
theorem assign_laid (hsections : program.sections symbols initial = .ok sections)
    (hassign : (assign symbols.id sections base).outcome = .ok laid) :
  laid.map Section.unplaced = sections.map Section.unplaced
    ∧ ∀ s ∈ laid, Sized (assign symbols.id sections base).addresses s.lines
      ∧ s.bounds.byteCount
        = (s.lines.map (assign symbols.id sections base).addresses.sizeAt).sum
  := by
  constructor
  · obtain ⟨a, p, below, above, rfl, hfrontier, -⟩ := assign_sides hsections hassign
    apply hfrontier.unplaced_eq
  · intro s hs
    obtain ⟨i, ps, hlaid, hentered⟩ := exists_laidOut hsections hassign hs
    use hlaid.sized hentered, hlaid.byteCount_eq hentered

theorem sectionOrder_eq_of_unplaced
    (h : laid.map Section.unplaced = sections.map Section.unplaced) :
  sectionOrder laid = sectionOrder sections
  := by
  have hlines := congrArg (List.flatMap (fun s : Section => s.lines)) h
  simpa [List.flatMap_map, Section.unplaced, sectionOrder] using hlines

/-- Every line with an address is a line of the program. -/
theorem exists_line_of_get?_addresses (hsections : program.sections symbols initial = .ok sections)
    (hassign : (assign symbols.id sections base).outcome = .ok laid) {line : LineId} {e : Address}
    (he : (assign symbols.id sections base).addresses.get? line = some e) :
  ∃ l ∈ sectionOrder sections, l.id = line
  := by
  have hmem := LineTable.mem_of_get?_ofInserts he
  rw [entries_eq] at hmem
  obtain ⟨p, hp, ⟨⟩⟩ := List.mem_map.mp hmem
  use p.line
  constructor
  · rw [← (assign_lines_perm hsections hassign).mem_iff]
    apply List.mem_map_of_mem (List.mem_filter.mp hp).1
  · rfl

end

/-! ### Assembling -/

section

variable {program : Program} {symbols : SymbolTable} {options : Options} {a : Assembly}

/-- A program is assembled by splitting it into sections, laying them out and emitting them. -/
theorem assemble_eq_ok_iff :
  (assemble program symbols options).outcome = .ok a
    ↔ ∃ sections laid object,
      program.sections (symbols.bindImports options.linked) options.initial = .ok sections
      ∧ (assign symbols.id sections options.base).outcome = .ok laid
      ∧ emit laid (assign symbols.id sections options.base).addresses
          ((assemble program symbols options).symbols.resolveRef · options.linked) = .ok object
      ∧ a = {
        sections := laid
        systemCalls := program.systemCalls
        devices := program.devices
        addresses := (assign symbols.id sections options.base).addresses
        object }
  := by
  rw [assemble, Program.split_eq]
  cases hsections : program.sections (symbols.bindImports options.linked) options.initial with
  | error e => simp [Except.map]
  | ok sections =>
      simp only [Except.map, Except.bind_eq_ok_iff, Except.ok.injEq]
      constructor
      · rintro ⟨laid, hassign, object, hemit, ⟨⟩⟩
        exact ⟨sections, laid, object, rfl, hassign, hemit, rfl⟩
      · rintro ⟨_, laid, object, rfl, hassign, hemit, rfl⟩
        exact ⟨laid, hassign, object, hemit, rfl⟩

/-- The definitions of a program that has sections are entered, whatever becomes of it then. -/
theorem symbols_assemble {sections : List Section}
    (hsections : program.sections (symbols.bindImports options.linked) options.initial
      = .ok sections) :
  (assemble program symbols options).symbols
    = (assign symbols.id sections options.base).enterInto (symbols.bindImports options.linked)
  := by
  rw [assemble, Program.split_eq, hsections]
  rfl

/-- An assembled program has been laid out, and its definitions have been entered. -/
theorem exists_layout_of_assemble (h : (assemble program symbols options).outcome = .ok a) :
  ∃ sections,
    program.sections (symbols.bindImports options.linked) options.initial = .ok sections
    ∧ (assign symbols.id sections options.base).outcome = .ok a.sections
    ∧ a.addresses = (assign symbols.id sections options.base).addresses
    ∧ sectionOrder a.sections = sectionOrder sections
    ∧ (assemble program symbols options).symbols
      = (assign symbols.id sections options.base).enterInto (symbols.bindImports options.linked)
  := by
  obtain ⟨sections, laid, object, hsections, hassign, -, rfl⟩ := assemble_eq_ok_iff.mp h
  use sections, hsections, hassign, rfl
  use sectionOrder_eq_of_unplaced (assign_laid hsections hassign).1
  apply symbols_assemble hsections

/-- The lines of the sections are those of the program. -/
theorem mem_sectionOrder_iff (h : (assemble program symbols options).outcome = .ok a)
    {l : NumberedLine} :
  l ∈ sectionOrder a.sections ↔ l ∈ program.numbered
  := by
  obtain ⟨sections, hsections, -, -, horder, -⟩ := exists_layout_of_assemble h
  rw [horder, (Program.sectionOrder_perm hsections).mem_iff]

/-- An assembly with the codes of its sections. -/
structure Assembly.Emits (a : Assembly) (resolve : SymbolRef → Option UInt64)
    (codes : List SectionCode) : Prop where
  sized : ∀ s ∈ a.sections, Sized a.addresses s.lines
  byteCount_eq : ∀ s ∈ a.sections, s.bounds.byteCount = (s.lines.map a.addresses.sizeAt).sum
  nodup_id : ((sectionOrder a.sections).map (·.id)).Nodup
  exists_line : ∀ {line e}, a.addresses.get? line = some e →
    ∃ l ∈ sectionOrder a.sections, l.id = line
  increasing : a.addresses.Increasing
  emitsAll : EmitsAll a.addresses resolve a.sections.zipIdx codes
  object_eq : a.object = {
    buffers := codes.map (·.bytes)
    relocations := codes.flatMap (·.relocations)
    spans := .ofInserts (codes.flatMap (·.spans)) }

theorem exists_emits (h : (assemble program symbols options).outcome = .ok a) :
  ∃ codes, a.Emits ((assemble program symbols options).symbols.resolveRef · options.linked) codes
  := by
  obtain ⟨sections, laid, object, hsections, hassign, hemit, rfl⟩ := assemble_eq_ok_iff.mp h
  obtain ⟨hunplaced, hlaid⟩ := assign_laid hsections hassign
  obtain ⟨codes, hcodes, rfl⟩ := (emit_eq_ok_iff hlaid).mp hemit
  have horder := sectionOrder_eq_of_unplaced hunplaced
  refine ⟨codes, {
    sized := fun s hs => (hlaid s hs).1
    byteCount_eq := fun s hs => (hlaid s hs).2
    nodup_id := ?_
    exists_line := ?_
    increasing := LineTable.increasing_ofInserts _
    emitsAll := hcodes
    object_eq := rfl }⟩
  · rw [horder]
    apply Program.nodup_sectionOrder hsections
  · intro line e he
    rw [horder]
    apply exists_line_of_get?_addresses hsections hassign he

end

namespace Assembly.Emits

variable {a : Assembly} {resolve : SymbolRef → Option UInt64} {codes : List SectionCode}

theorem map_fst_spans (h : a.Emits resolve codes) :
  (codes.flatMap (·.spans)).map (·.1)
    = ((sectionOrder a.sections).filter (a.addresses.contains ·.id)).map (·.id)
  := by
  have hsections : a.sections.zipIdx.flatMap (·.1.lines) = sectionOrder a.sections := by
    rw [sectionOrder]
    conv_rhs => rw [← List.zipIdx_map_fst 0 a.sections, List.flatMap_map]
  rw [h.emitsAll.map_fst_spans, hsections]

/-- The span table has the spans of every section. -/
theorem get?_spans_iff (h : a.Emits resolve codes) {line : LineId} {span : Span} :
  a.object.spans.get? line = some span ↔ (line, span) ∈ codes.flatMap (·.spans)
  := by
  rw [h.object_eq, LineTable.get?_ofInserts_of_nodup]
  rw [h.map_fst_spans]
  apply List.Nodup.sublist _ h.nodup_id
  apply List.filter_sublist.map

/-- The span table has the lines of the address table. -/
theorem contains_spans (h : a.Emits resolve codes) (line : LineId) :
  a.object.spans.contains line = a.addresses.contains line
  := by
  have hspans : a.object.spans.contains line = true
      ↔ line ∈ (codes.flatMap (·.spans)).map (·.1) := by
    simp only [LineTable.contains, Option.isSome_iff_exists, h.get?_spans_iff]
    simp
  rw [Bool.eq_iff_iff, hspans, h.map_fst_spans]
  simp only [List.mem_map, List.mem_filter]
  constructor
  · rintro ⟨l, ⟨-, hl⟩, rfl⟩
    apply hl
  · intro hline
    obtain ⟨e, he⟩ := Option.isSome_iff_exists.mp hline
    obtain ⟨l, hl, rfl⟩ := h.exists_line he
    use l, ⟨hl, hline⟩

/-- The code of a section is at the position of the section. -/
theorem exists_code (h : a.Emits resolve codes) {i : Nat} {s : Section}
    (hs : a.sections[i]? = some s) :
  ∃ code, s.Emits a.addresses resolve i code ∧ a.object.buffers[i]? = some code.bytes
    ∧ ∀ x ∈ code.spans, a.object.spans.get? x.1 = some x.2
  := by
  have hs' : a.sections.zipIdx[i]? = some (s, i) := by simp [hs]
  obtain ⟨code, hcode, hemits⟩ := h.emitsAll.exists_getElem? hs'
  use code, hemits
  constructor
  · simp [h.object_eq, hcode]
  · intro x hx
    rw [h.get?_spans_iff, List.mem_flatMap]
    use code, List.mem_of_getElem? hcode

/-- A line with a span is in the section of its span. -/
theorem exists_line_of_span (h : a.Emits resolve codes) {line : LineId} {span : Span}
    (hspan : a.object.spans.get? line = some span) :
  ∃ s l, a.sections[span.index]? = some s ∧ l ∈ s.lines ∧ l.id = line
  := by
  have hline : a.addresses.contains line = true := by
    rw [← h.contains_spans, LineTable.contains, hspan]
    rfl
  obtain ⟨e, he⟩ := Option.isSome_iff_exists.mp hline
  obtain ⟨l, hl, rfl⟩ := h.exists_line he
  obtain ⟨s, hs, hl⟩ := List.mem_flatMap.mp hl
  obtain ⟨i, hi⟩ := List.mem_iff_getElem?.mp hs
  obtain ⟨code, hcode, -, hspans⟩ := h.exists_code hi
  have hmem : l.id ∈ code.spans.map (·.1) := by
    rw [hcode.map_fst_spans]
    apply List.mem_map_of_mem (List.mem_filter.mpr ⟨hl, hline⟩)
  obtain ⟨⟨_, span'⟩, hx, rfl⟩ := List.mem_map.mp hmem
  obtain rfl := Option.some_inj.mp ((hspans _ hx).symm.trans hspan)
  obtain rfl := hcode.index_eq _ hx
  use s, l

end Assembly.Emits

/-! ### Bytes and relocations -/

/-- The bytes of an assembly are the encodings of its lines, and its relocations are the operands
without a value. -/
structure Assembly.Encodes (a : Assembly) (resolve : SymbolRef → Option UInt64) : Prop where
  /-- The span of a line holds the encoding of the line. -/
  slice : ∀ {i : Nat} {s : Section} {l : NumberedLine} {e : Address}, a.sections[i]? = some s →
    ¬ s.isZeroed → l ∈ s.lines → a.addresses.get? l.id = some e →
    ∃ span buffer, a.object.spans.get? l.id = some span ∧ a.object.buffers[i]? = some buffer
      ∧ span.stop ≤ buffer.length
      ∧ Pep10.Encodes resolve e.size.toNat (buffer.extract span.start span.stop) l.line.kind
  /-- The relocations follow the order of the lines. -/
  relocations_eq : a.object.relocations = a.sections.zipIdx.flatMap fun (s, index) =>
    if s.isZeroed then []
    else s.lines.filterMap (relocation? a.addresses a.object.spans resolve index)

/-- A load from a symbol without a value, a byte with a label, a zeroed block, and a pointer to
the label. -/
def Program.mixed : Program :=
  [{ kind := .dyadic .ldwa (some .direct) (.symbolic "far" ⟨0, 0⟩) },
    { kind := .data .byte (.literal (.decimal 7)), symbol? := some 1 },
    { kind := .opening ⟨"zeros", { writable := true, zeroed := true }⟩ },
    { kind := .block (.literal (.decimal 4)) },
    { kind := .opening .text },
    { kind := .data .word (.symbolic "near" ⟨0, 1⟩) }]

/-- The symbols of the program `mixed`. -/
def SymbolTable.mixed : SymbolTable where
  id := 0
  entries := [{ name := "far" }, { name := "near", state := .single }]

theorem buffers_assemble_mixed :
  (assemble .mixed .mixed {}).outcome.map (·.object.buffers) = .ok [[0xC1, 0, 0, 7, 0, 3], []]
  := by
  cbv

theorem exists_assemble_mixed :
  ∃ a, (assemble .mixed .mixed {}).outcome = .ok a
    ∧ a.object.buffers = [[0xC1, 0, 0, 7, 0, 3], []]
  := Except.map_eq_ok_iff.mp buffers_assemble_mixed

/-- The address table, the span table and the buffers of an assembly agree. -/
structure Assembly.SpansAgree (a : Assembly) : Prop where
  /-- A line has a span when it has an address. -/
  lines_eq : a.object.spans.toList.map (·.1) = a.addresses.toList.map (·.1)
  /-- Every section has a buffer. -/
  length_buffers : a.object.buffers.length = a.sections.length
  /-- The spans of a section with bytes fill its buffer in the order of the lines. -/
  stored : ∀ {i : Nat} {s : Section} {buffer : List UInt8}, a.sections[i]? = some s →
    a.object.buffers[i]? = some buffer → ¬ s.isZeroed →
    buffer.length = s.bounds.byteCount
      ∧ s.bounds.byteCount = (s.lines.map a.addresses.sizeAt).sum
      ∧ Abutting a.addresses a.object.spans i 0 s.lines buffer.length
  /-- The spans of a zeroed section are empty. -/
  zeroed : ∀ {i : Nat} {s : Section} {buffer : List UInt8}, a.sections[i]? = some s →
    a.object.buffers[i]? = some buffer → s.isZeroed →
    buffer = [] ∧ ∀ l ∈ s.lines, a.addresses.contains l.id →
      a.object.spans.get? l.id = some ⟨i, 0, 0⟩
  /-- A span belongs to the section of its line. -/
  exists_line : ∀ {line : LineId} {span : Span}, a.object.spans.get? line = some span →
    ∃ s l, a.sections[span.index]? = some s ∧ l ∈ s.lines ∧ l.id = line

/-- The tables of an assembled program agree. -/
theorem assemble_spansAgree {program : Program} {symbols : SymbolTable} {options : Options}
    {a : Assembly} (h : (assemble program symbols options).outcome = .ok a) :
  a.SpansAgree
  := by
  obtain ⟨codes, hemits⟩ := exists_emits h
  refine {
    lines_eq := ?_
    length_buffers := ?_
    stored := ?_
    zeroed := ?_
    exists_line := ?_ }
  · have hspans : a.object.spans.Increasing := by
      rw [hemits.object_eq]
      apply LineTable.increasing_ofInserts
    apply LineTable.lines_eq hspans hemits.increasing hemits.contains_spans
  · rw [hemits.object_eq, List.length_map, ← hemits.emitsAll.length_eq, List.length_zipIdx]
  · intro i s buffer hs hbuffer hzeroed
    obtain ⟨code, hcode, hbuffer', hspans⟩ := hemits.exists_code hs
    obtain rfl := Option.some_inj.mp (hbuffer'.symm.trans hbuffer)
    rw [Section.Emits, if_neg hzeroed] at hcode
    have hmem := List.mem_of_getElem? hs
    have hsized := hemits.sized s hmem
    have hsize := hemits.byteCount_eq s hmem
    refine ⟨?_, hsize, ?_⟩
    · rw [hsize, hcode.length_bytes hsized]
    · simpa using hcode.abutting hsized hspans
  · intro i s buffer hs hbuffer hzeroed
    obtain ⟨code, hcode, hbuffer', hspans⟩ := hemits.exists_code hs
    obtain rfl := Option.some_inj.mp (hbuffer'.symm.trans hbuffer)
    rw [Section.Emits, if_pos hzeroed] at hcode
    subst hcode
    use rfl
    intro l hl hcontains
    apply hspans (l.id, ⟨i, 0, 0⟩)
    apply List.mem_map_of_mem (List.mem_filter.mpr ⟨hl, hcontains⟩)
  · intro line span hspan
    apply hemits.exists_line_of_span hspan

theorem assemble_spansAgree_mixed :
  ∃ a, (assemble .mixed .mixed {}).outcome = .ok a
    ∧ a.object.buffers = [[0xC1, 0, 0, 7, 0, 3], []] ∧ a.SpansAgree
  := by
  obtain ⟨a, ha, hbuffers⟩ := exists_assemble_mixed
  exact ⟨a, ha, hbuffers, assemble_spansAgree ha⟩

end Pep10
