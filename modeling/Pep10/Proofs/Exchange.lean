import Pep10.Proofs.Interleaving
import Pep10.Proofs.StoredLines
import Pep10.Proofs.SymbolValues

/-!
# Exchanged operands

A layout does not look at the operands of instructions and of data.  So a program in which one of
them is replaced by another operand has the same sections, and its lines are placed where they
were.  If moreover the two operands are written alike, the program has the same object code, and
it can be assembled if and only if it could be before.  Lines of zeroed sections are not written
at all, so there the operand does not matter.
-/

namespace Pep10

/-! ### Sections of relabelled lines -/

namespace NumberedLine

variable (r : Relabeling) (l : NumberedLine)

theorem heading?_relabel :
  (l.relabel r).heading? = l.heading?
  := by
  obtain ⟨a, ha⟩ := l.exists_kind_relabel r
  rw [heading?, ha, heading?]
  fun_cases LineKind.setOperand a l.line.kind with
  | case1 => rfl
  | case2 => rfl
  | case3 => rfl
  | case4 => rfl

theorem nameAfter_relabel (name : String) :
  (l.relabel r).nameAfter name = l.nameAfter name
  := by
  rw [nameAfter, heading?_relabel, nameAfter]

end NumberedLine

theorem named_relabel (r : Relabeling) (name : String) (lines : List NumberedLine) :
  named name (lines.map (·.relabel r)) = (named name lines).map (Prod.map id (·.relabel r))
  := by
  induction lines generalizing name with
  | nil => rfl
  | cons l lines ih =>
      rw [List.map_cons, named, l.nameAfter_relabel r, ih, named, List.map_cons]
      rfl

theorem headings_relabel (r : Relabeling) (initial : Heading) (lines : List NumberedLine) :
  headings initial (lines.map (·.relabel r)) = headings initial lines
  := by
  rw [headings, headings, List.filterMap_map]
  congr 1
  apply List.filterMap_congr
  intro l _
  apply l.heading?_relabel r

theorem outline_relabel (r : Relabeling) (initial : Heading) (lines : List NumberedLine) :
  outline initial (lines.map (·.relabel r)) = (outline initial lines).map (·.relabel r)
  := by
  rw [outline, headings_relabel, named_relabel, outline, sectionsOf, sectionsOf, List.map_map]
  apply List.map_congr_left
  intro h _
  simp only [Function.comp_apply, Section.relabel_ofLines, List.filter_map, List.map_map]
  rfl

theorem checkLabel_relabel {symbols : SymbolTable} (r : Relabeling) {l : NumberedLine} :
  Split.checkLabel symbols (l.relabel r) = .ok () ↔ Split.checkLabel symbols l = .ok ()
  := by
  rw [checkLabel_eq_ok_iff, checkLabel_eq_ok_iff, l.symbol?_relabel r]

/-- A program with relabelled lines has relabelled sections. -/
theorem Program.sections_relabel {P Q : Program} {r : Relabeling} {symbols : SymbolTable}
    {initial : Heading} {sections : List Section}
    (hnumbered : Q.numbered = P.numbered.map (·.relabel r))
    (h : P.sections symbols initial = .ok sections) :
  Q.sections symbols initial = .ok (sections.map (·.relabel r))
  := by
  obtain ⟨hlabels, hconsistent, rfl⟩ := Program.sections_eq_ok_iff.mp h
  apply Program.sections_eq_ok_iff.mpr
  rw [hnumbered, headings_relabel, outline_relabel, List.forall_mem_map]
  simp only [checkLabel_relabel]
  use hlabels, hconsistent

/-! ### Replacing one operand -/

namespace LineKind

variable {kind : LineKind} {offset : Nat} {width : UInt8} {a : Argument}

theorem operand?_setOperand (h : kind.operand? = some (offset, width, a)) (b : Argument) :
  (kind.setOperand b).operand? = some (offset, width, b)
  := by
  obtain ⟨m, mode, rfl, rfl, rfl⟩ | ⟨rfl, rfl, rfl⟩ | ⟨rfl, rfl, rfl⟩ := operand?_cases h
  · rfl
  · rfl
  · rfl

theorem setOperand_setOperand_self (h : kind.operand? = some (offset, width, a)) (b : Argument) :
  (kind.setOperand b).setOperand a = kind
  := by
  obtain ⟨m, mode, rfl, -, -⟩ | ⟨rfl, -, -⟩ | ⟨rfl, -, -⟩ := operand?_cases h
  · rfl
  · rfl
  · rfl

theorem width_eq (h : kind.operand? = some (offset, width, a)) :
  width = 1 ∨ width = 2
  := by
  obtain ⟨_, _, _, _, rfl⟩ | ⟨_, _, rfl⟩ | ⟨_, _, rfl⟩ := operand?_cases h
  · exact .inr rfl
  · exact .inl rfl
  · exact .inr rfl

theorem size_ne_zero {l : Line} (h : l.kind.operand? = some (offset, width, a)) (base : UInt16) :
  l.size base ≠ 0
  := by
  obtain ⟨m, mode, h, -, -⟩ | ⟨h, -, -⟩ | ⟨h, -, -⟩ := operand?_cases h
  · simp [Line.size, Line.size?, h]
  · simp [Line.size, Line.size?, h]
  · simp [Line.size, Line.size?, h]

end LineKind

/-- The program with another operand in one line. -/
def Program.setOperand (program : Program) (j : LineId) (a : Argument) : Program :=
  program.modify j fun l => { l with kind := l.kind.setOperand a }

/-- Another operand for the line with the given number. -/
def Relabeling.setOperand (j : LineId) (a : Argument) : Relabeling where
  line l :=
    if l.id = j then { l with line := { l.line with kind := l.line.kind.setOperand a } } else l
  id i := i
  id_line l := by
    split
    · rfl
    · rfl
  symbol?_line l := by
    split
    · rfl
    · rfl
  kind_line l := by
    split
    · exact ⟨a, rfl⟩
    · apply l.line.kind.exists_setOperand_self

theorem relabel_setOperand_of_ne {j : LineId} {l : NumberedLine} (h : l.id ≠ j) (a : Argument) :
  l.relabel (.setOperand j a) = l
  := if_neg h

theorem relabel_setOperand_self (l : NumberedLine) (a : Argument) :
  l.relabel (.setOperand l.id a)
    = { l with line := { l.line with kind := l.line.kind.setOperand a } }
  := if_pos rfl

namespace Program

variable {program : Program} {j : LineId} {l : Line} {offset : Nat} {width : UInt8}
  {a : Argument}

theorem numbered_setOperand (program : Program) (j : LineId) (a : Argument) :
  (program.setOperand j a).numbered = program.numbered.map (·.relabel (.setOperand j a))
  := by
  apply List.ext_getElem?
  intro i
  simp only [numbered, setOperand, List.getElem?_map, List.getElem?_zipIdx, List.getElem?_modify,
    Nat.zero_add]
  cases program[i]? with
  | none => rfl
  | some l =>
      by_cases h : j = i
      · subst h
        simp [relabel_setOperand_self ⟨j, l⟩]
      · simp [h, relabel_setOperand_of_ne (l := ⟨i, l⟩) (Ne.symm h)]

theorem getElem?_setOperand (hl : program[j]? = some l) (a : Argument) :
  (program.setOperand j a)[j]? = some { l with kind := l.kind.setOperand a }
  := by
  rw [setOperand, List.getElem?_modify_eq, hl]
  rfl

/-- The old operand can be put back. -/
theorem setOperand_cancel (hl : program[j]? = some l)
    (h : l.kind.operand? = some (offset, width, a)) (b : Argument) :
  (program.setOperand j b).setOperand j a = program
  := by
  rw [setOperand, setOperand, List.modify_modify_eq]
  apply List.ext_getElem?
  intro i
  rw [List.getElem?_modify]
  split
  · next hi =>
    rw [← hi, hl, Option.map_eq_map, Option.map_some, Function.comp_apply,
      LineKind.setOperand_setOperand_self h]
  · apply Option.map_id'

end Program

/-- An assembly with the same numbers of lines has the same tables and the same object code. -/
theorem Assembly.Renumbers.eq_of_id {a b : Assembly} (h : a.Renumbers b fun i => i)
    {resolve resolve' : SymbolRef → Option UInt64} {codes codes' : List SectionCode}
    (ha : a.Emits resolve codes) (hb : b.Emits resolve' codes') :
  b.addresses = a.addresses ∧ b.object = a.object
  := by
  have hid : ∀ {α : Type} (xs : List (LineId × α)), xs.map (Prod.map (fun i => i) id) = xs :=
    fun xs => List.map_id xs
  have hspans : b.object.spans = a.object.spans := by
    apply LineTable.eq_of_perm
    · rw [hb.object_eq]
      apply LineTable.increasing_ofInserts
    · rw [ha.object_eq]
      apply LineTable.increasing_ofInserts
    · simpa only [hid] using h.spans
  have hrelocations : b.object.relocations = a.object.relocations := by
    simpa using h.relocations
  constructor
  · apply LineTable.eq_of_perm hb.increasing ha.increasing
    simpa only [hid] using h.addresses
  · have hbuffers := h.buffers
    revert hspans hrelocations hbuffers
    cases a.object
    cases b.object
    rintro ⟨⟩ ⟨⟩ ⟨⟩
    rfl

section

variable {program : Program} {symbols : SymbolTable} {options : Options} {a : Assembly}
  {j : LineId}

/-- Another operand makes no difference to an assembly if its line keeps its code. -/
theorem exists_assemble_setOperand (ha : (assemble program symbols options).outcome = .ok a)
    {argument : Argument}
    (hkeeps : ∀ s ∈ a.sections, ¬ s.isZeroed → ∀ l ∈ s.lines, l.id = j → KeepsCode a.addresses
      ((assemble program symbols options).symbols.resolveRef · options.linked)
      (.setOperand j argument) l) :
  ∃ b, (assemble (program.setOperand j argument) symbols options).outcome = .ok b
    ∧ b.addresses = a.addresses ∧ b.object = a.object
  := by
  obtain ⟨sections, hsections, -⟩ := exists_layout_of_assemble ha
  rw [Program.sections_bindImports] at hsections
  have hsections' :=
    Program.sections_relabel (program.numbered_setOperand j argument) hsections
  have hall : ∀ s ∈ a.sections, ¬ s.isZeroed → ∀ l ∈ s.lines, KeepsCode a.addresses
      ((assemble program symbols options).symbols.resolveRef · options.linked)
      (.setOperand j argument) l := by
    intro s hs hzeroed l hl
    by_cases hid : l.id = j
    · apply hkeeps s hs hzeroed l hl hid
    · intro e _ code hcode
      rwa [relabel_setOperand_of_ne hid]
  obtain ⟨b, hb, -, hrenumbers⟩ := exists_assemble_of_keepsCode hsections hsections' ha hall
  obtain ⟨codes, hemits⟩ := exists_emits ha
  obtain ⟨codes', hemits'⟩ := exists_emits hb
  use b, hb
  apply Assembly.Renumbers.eq_of_id hrenumbers hemits hemits'

end

/-! ### Operands with the same digits -/

section

variable {resolve : SymbolRef → Option UInt64} {width : UInt8} {a b : Argument} {offset size : Nat}
  {bytes : List UInt8} {kind : LineKind}

/-- Two operands that are written alike in a number of bytes. -/
structure Argument.Alike (resolve : SymbolRef → Option UInt64) (width : UInt8)
    (a b : Argument) : Prop where
  pending?_eq : b.pending? resolve = a.pending? resolve
  hasValue_iff : ∀ v, v.toNat < capacity width.toNat →
    (b.HasValue resolve width v ↔ a.HasValue resolve width v)

theorem Argument.Alike.symm (h : a.Alike resolve width b) :
  b.Alike resolve width a
  where
  pending?_eq := h.pending?_eq.symm
  hasValue_iff v hv := (h.hasValue_iff v hv).symm

theorem Encodes.setOperand (h : Encodes resolve size bytes kind)
    (hoperand : kind.operand? = some (offset, width, a)) (hab : a.Alike resolve width b) :
  Encodes resolve size bytes (kind.setOperand b)
  := by
  have hvalue : ∀ {v digits}, a.HasValue resolve width v → Digits width.toNat v digits →
      b.HasValue resolve width v := by
    intro v digits hv hdigits
    rw [digits_iff (LineKind.width_le hoperand)] at hdigits
    apply (hab.hasValue_iff v hdigits.1).mpr hv
  obtain ⟨m, mode, rfl, rfl, rfl⟩ | ⟨rfl, rfl, rfl⟩ | ⟨rfl, rfl, rfl⟩ :=
    LineKind.operand?_cases hoperand
  · obtain ⟨op, v, digits, hop, hv, hdigits, rfl⟩ := h
    exact ⟨op, v, digits, hop, hvalue hv hdigits, hdigits, rfl⟩
  · obtain ⟨v, hv, hdigits⟩ := h
    exact ⟨v, hvalue hv hdigits, hdigits⟩
  · obtain ⟨v, hv, hdigits⟩ := h
    exact ⟨v, hvalue hv hdigits, hdigits⟩

theorem LineKind.pending?_setOperand (hoperand : kind.operand? = some (offset, width, a))
    (hab : a.Alike resolve width b) :
  (kind.setOperand b).pending? resolve = kind.pending? resolve
  := by
  simp only [pending?, operand?_setOperand hoperand, hoperand, Option.bind_some, hab.pending?_eq]

/-- A line keeps its code when its operand is replaced by one that is written alike. -/
theorem keepsCode_setOperand {addresses : LineTable Address} {lines : List NumberedLine}
    (hsized : Sized addresses lines) {l : NumberedLine} (hl : l ∈ lines)
    (hoperand : l.line.kind.operand? = some (offset, width, a))
    (hab : a.Alike resolve width b) :
  KeepsCode addresses resolve (.setOperand l.id b) l
  := by
  intro e he code hcode
  obtain ⟨hne, base, hbase⟩ := hsized.of_some l hl e he
  have hne' : (l.relabel (.setOperand l.id b)).line.size base ≠ 0 := by
    rwa [NumberedLine.size_relabel, ← hbase]
  rw [hbase, ← NumberedLine.size_relabel (.setOperand l.id b), encodeLine_eq_ok_iff hne',
    NumberedLine.size_relabel, ← hbase, relabel_setOperand_self]
  obtain ⟨hencodes, hpending⟩ := (hsized.encodeLine_eq_ok_iff hl he).mp hcode
  exact ⟨hencodes.setOperand hoperand hab,
    hpending.trans (LineKind.pending?_setOperand hoperand hab).symm⟩

end

/-! ### Programs with exchanged operands -/

/-- The addresses and the object code of a program that can be assembled. -/
def result? (program : Program) (symbols : SymbolTable) (options : Options) :
    Option (LineTable Address × ObjectCode) :=
  (assemble program symbols options).outcome.toOption.map fun a => (a.addresses, a.object)

/-- A line stands in a section that is not zeroed. -/
def Program.StoresLine (program : Program) (initial : Heading) (j : LineId) : Prop :=
  ∃ s ∈ outline initial program.numbered, ¬ s.isZeroed ∧ j ∈ s.lines.map (·.id)

section

variable {program : Program} {symbols : SymbolTable} {options : Options} {a : Assembly}
  {j : LineId} {l : Line} {offset : Nat} {width : UInt8} {argument argument' : Argument}

theorem result?_eq_some_iff {x : LineTable Address × ObjectCode} :
  result? program symbols options = some x
    ↔ ∃ a, (assemble program symbols options).outcome = .ok a ∧ (a.addresses, a.object) = x
  := by
  rw [result?]
  cases (assemble program symbols options).outcome with
  | error e => simp [Except.toOption]
  | ok a => simp [Except.toOption]

theorem result?_eq_none_iff :
  result? program symbols options = none
    ↔ ∀ a, (assemble program symbols options).outcome ≠ .ok a
  := by
  rw [result?]
  cases (assemble program symbols options).outcome with
  | error e => simp [Except.toOption]
  | ok a => simp [Except.toOption]

/-- The sections of an assembled program that are not zeroed are those of its outline. -/
theorem exists_section_iff_storesLine (ha : (assemble program symbols options).outcome = .ok a) :
  (∃ s ∈ a.sections, ¬ s.isZeroed ∧ j ∈ s.lines.map (·.id))
    ↔ program.StoresLine options.initial j
  := by
  have hunplaced : ∀ sections : List Section,
      (∃ s ∈ sections, ¬ s.isZeroed ∧ j ∈ s.lines.map (·.id))
        ↔ ∃ s ∈ sections.map Section.unplaced, ¬ s.isZeroed ∧ j ∈ s.lines.map (·.id) := by
    intro sections
    simp only [List.mem_map, exists_exists_and_eq_and]
    rfl
  obtain ⟨sections, hsections, hassign, -⟩ := exists_layout_of_assemble ha
  obtain ⟨-, -, houtline⟩ := Program.sections_eq_ok_iff.mp hsections
  rw [hunplaced, (assign_laid hsections hassign).1, ← hunplaced, houtline, Program.StoresLine]

theorem Program.storesLine_setOperand (program : Program) (j : LineId) (argument : Argument)
    {initial : Heading} {i : LineId} :
  (program.setOperand j argument).StoresLine initial i ↔ program.StoresLine initial i
  := by
  have hids : ∀ s : Section, (s.relabel (.setOperand j argument)).lines.map (·.id)
      = s.lines.map (·.id) := by
    intro s
    rw [Section.relabel, List.map_map]
    apply List.map_congr_left
    intro l _
    apply l.id_relabel
  rw [StoresLine, numbered_setOperand, outline_relabel]
  simp only [List.mem_map (b := (_ : Section)), exists_exists_and_eq_and, hids]
  rfl

theorem line_eq_of_mem_section (ha : (assemble program symbols options).outcome = .ok a)
    {s : Section} (hs : s ∈ a.sections) {m : NumberedLine} (hm : m ∈ s.lines)
    (hl : program[m.id]? = some l) :
  m.line = l
  := by
  have hmem := (mem_sectionOrder_iff ha).mp (List.mem_flatMap.mpr ⟨s, hs, hm⟩)
  cases hl.symm.trans (Program.getElem?_of_mem_numbered hmem)
  rfl

/-- The operand of a line in a section that is not zeroed fits in its bytes. -/
theorem exists_hasValue_of_storesLine (ha : (assemble program symbols options).outcome = .ok a)
    (hl : program[j]? = some l) (hoperand : l.kind.operand? = some (offset, width, argument))
    (hstores : program.StoresLine options.initial j) :
  ∃ v, argument.HasValue
      ((assemble program symbols options).symbols.resolveRef · options.linked) width v
    ∧ v.toNat < capacity width.toNat
  := by
  obtain ⟨s, hs, hzeroed, hj⟩ := (exists_section_iff_storesLine ha).mpr hstores
  obtain ⟨m, hm, rfl⟩ := List.mem_map.mp hj
  obtain rfl := line_eq_of_mem_section ha hs hm hl
  obtain ⟨codes, hemits⟩ := exists_emits ha
  obtain ⟨i, hi⟩ := List.mem_iff_getElem?.mp hs
  cases he : a.addresses.get? m.id with
  | none =>
      obtain ⟨base, hsize⟩ := (hemits.sized s hs).of_none m hm he
      cases LineKind.size_ne_zero hoperand base hsize
  | some e =>
      obtain ⟨_, _, _, _, _, _, hencodes⟩ := hemits.exists_span hi hzeroed hm he
      obtain ⟨v, hv, hdigits⟩ := hencodes.operand hoperand
      rw [digits_iff (LineKind.width_le hoperand)] at hdigits
      exact ⟨v, hv, hdigits.1⟩

/-- An assembly does not see that an operand is replaced by one that is written alike. -/
theorem exists_assemble_of_alike (ha : (assemble program symbols options).outcome = .ok a)
    (hl : program[j]? = some l) (hoperand : l.kind.operand? = some (offset, width, argument))
    (halike : program.StoresLine options.initial j → argument.Alike
      ((assemble program symbols options).symbols.resolveRef · options.linked) width argument') :
  ∃ b, (assemble (program.setOperand j argument') symbols options).outcome = .ok b
    ∧ b.addresses = a.addresses ∧ b.object = a.object
  := by
  obtain ⟨codes, hemits⟩ := exists_emits ha
  apply exists_assemble_setOperand ha
  rintro s hs hzeroed m hm rfl
  obtain rfl := line_eq_of_mem_section ha hs hm hl
  have hstores : program.StoresLine options.initial m.id := by
    apply (exists_section_iff_storesLine ha).mp
    use s, hs, hzeroed, List.mem_map_of_mem hm
  apply keepsCode_setOperand (hemits.sized s hs) hm hoperand (halike hstores)

/-- Operands that are written alike can be exchanged. -/
theorem result?_setOperand_of_alike (hl : program[j]? = some l)
    (hoperand : l.kind.operand? = some (offset, width, argument))
    (hold : ∀ a, (assemble program symbols options).outcome = .ok a →
      program.StoresLine options.initial j → argument.Alike
        ((assemble program symbols options).symbols.resolveRef · options.linked) width argument')
    (hnew : ∀ b, (assemble (program.setOperand j argument') symbols options).outcome = .ok b →
      program.StoresLine options.initial j → argument.Alike
        ((assemble (program.setOperand j argument') symbols options).symbols.resolveRef ·
          options.linked) width argument') :
  result? (program.setOperand j argument') symbols options = result? program symbols options
  := by
  apply Option.ext
  intro x
  rw [result?_eq_some_iff, result?_eq_some_iff]
  constructor
  · rintro ⟨b, hb, rfl⟩
    obtain ⟨a, ha, haddresses, hobject⟩ := exists_assemble_of_alike hb
      (Program.getElem?_setOperand hl argument') (LineKind.operand?_setOperand hoperand argument')
      (fun hstores => (hnew b hb ((program.storesLine_setOperand j argument').mp hstores)).symm)
    rw [Program.setOperand_cancel hl hoperand] at ha
    use a, ha
    rw [haddresses, hobject]
  · rintro ⟨a, ha, rfl⟩
    obtain ⟨b, hb, haddresses, hobject⟩ := exists_assemble_of_alike ha hl hoperand (hold a ha)
    use b, hb
    rw [haddresses, hobject]

end

end Pep10
