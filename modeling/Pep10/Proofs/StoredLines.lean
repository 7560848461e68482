import Pep10.Proofs.ObjectCode
import Pep10.Proofs.Layout.Bounds
import Mathlib.Data.List.Flatten

/-!
# Stored lines

The lines of an assembled program that have bytes in its object code, those with an address in a
section that is not zeroed.  The object code of a section is that of its lines, one after the
other.  The operand of a line holds the value of its symbol, and if there is none it is zero and
has a relocation.
-/

namespace Pep10

/-! ### The code of a line -/

namespace Assembly

/-- The bytes of a line in the object code. -/
def codeOf (a : Assembly) (line : LineId) : List UInt8 :=
  match a.object.spans.get? line with
  | some span => (a.sectionBytes span.index).extract span.start span.stop
  | none => []

theorem codeOf_eq_extract {a : Assembly} {line : LineId} {span : Span}
    (h : a.object.spans.get? line = some span) :
  a.codeOf line = (a.sectionBytes span.index).extract span.start span.stop
  := by
  rw [codeOf, h]

/-- A line with an address in a section that is not zeroed. -/
def Stores (a : Assembly) (line : LineId) (e : Address) : Prop :=
  a.addresses.get? line = some e
    ∧ ∃ s ∈ a.sections, ¬ s.isZeroed ∧ line ∈ s.lines.map (·.id)

/-- The stored lines of a section, with their addresses. -/
def storedIn (a : Assembly) (s : Section) : List (LineId × Address) :=
  if s.isZeroed then [] else a.addresses.entriesOf s.lines

/-- The stored lines in the order of the sections, with their addresses. -/
def storedLines (a : Assembly) : List (LineId × Address) :=
  a.sections.flatMap a.storedIn

theorem mem_storedIn_iff {a : Assembly} {s : Section} {line : LineId} {e : Address} :
  (line, e) ∈ a.storedIn s
    ↔ ¬ s.isZeroed ∧ line ∈ s.lines.map (·.id) ∧ a.addresses.get? line = some e
  := by
  rw [storedIn]
  split
  · next hzeroed => simp [hzeroed]
  · next hzeroed => rw [LineTable.mem_entriesOf_iff, and_iff_right hzeroed]

theorem mem_storedLines_iff {a : Assembly} {line : LineId} {e : Address} :
  (line, e) ∈ a.storedLines ↔ a.Stores line e
  := by
  rw [storedLines, List.mem_flatMap, Stores]
  simp only [mem_storedIn_iff]
  constructor
  · rintro ⟨s, hs, hzeroed, hline, he⟩
    exact ⟨he, s, hs, hzeroed, hline⟩
  · rintro ⟨he, s, hs, hzeroed, hline⟩
    exact ⟨s, hs, hzeroed, hline, he⟩

/-- The operand of a line holds a number, and nothing is left to be filled in. -/
structure Holds (a : Assembly) (line : LineId) (offset : Nat) (width : UInt8) (v : UInt64) :
    Prop where
  digits : Digits width.toNat v ((a.codeOf line).drop offset)
  settled : ∀ r ∈ a.object.relocations, r.line ≠ line

/-- The operand of a line is zero until the value of a symbol becomes known. -/
structure Awaits (a : Assembly) (line : LineId) (offset : Nat) (width : UInt8) (symbol : String) :
    Prop where
  zeros : (a.codeOf line).drop offset = List.replicate width.toNat 0
  relocation : ∃ span, a.object.spans.get? line = some span
    ∧ ⟨span.index, span.start + offset, width, symbol, line⟩ ∈ a.object.relocations

end Assembly

variable {addresses : LineTable Address} {resolve : SymbolRef → Option UInt64}

/-- The bytes of lines stand one after the other in their section. -/
theorem Emitted.bytes_eq_flatMap {index start : Nat} {lines : List NumberedLine}
    {code : SectionCode} (h : Emitted addresses resolve index start lines code)
    (hsized : Sized addresses lines) (before after : List UInt8) (hstart : before.length = start)
    {f : LineId → List UInt8}
    (hspan : ∀ x ∈ code.spans, f x.1 = (before ++ code.bytes ++ after).extract x.2.start x.2.stop)
    (hnone : ∀ l ∈ lines, addresses.get? l.id = none → f l.id = []) :
  code.bytes = lines.flatMap fun l => f l.id
  := by
  induction h generalizing before with
  | nil => rfl
  | skip hl _ ih =>
      rw [List.forall_mem_cons] at hnone
      rw [List.flatMap_cons, hnone.1 hl, List.nil_append]
      apply ih hsized.tail before hstart hspan hnone.2
  | @line start l lines e c rest hl hcode _ ih =>
      have hencodes := ((hsized.encodeLine_eq_ok_iff List.mem_cons_self hl).mp hcode).1
      have hlength := hsized.length_eq List.mem_cons_self hl hencodes
      rw [List.forall_mem_cons] at hnone
      rw [SectionCode.cons, List.forall_mem_cons] at hspan
      have hl' : f l.id = c.bytes := by
        rw [hspan.1, ← hlength, ← hstart]
        simp
      have hrest : rest.bytes = lines.flatMap fun l => f l.id := by
        apply ih hsized.tail (before ++ c.bytes) _ _ hnone.2
        · rw [List.length_append, hstart, hlength]
        · intro x hx
          rw [hspan.2 x hx, ← List.append_assoc before]
      rw [SectionCode.cons, List.flatMap_cons, hl', ← hrest]

/-- The operand of a line stands at its place in the bytes of the line. -/
theorem Encodes.operand {size : Nat} {bytes : List UInt8} {kind : LineKind}
    (h : Encodes resolve size bytes kind) {offset : Nat} {width : UInt8} {argument : Argument}
    (hoperand : kind.operand? = some (offset, width, argument)) :
  ∃ v, argument.HasValue resolve width v ∧ Digits width.toNat v (bytes.drop offset)
  := by
  obtain ⟨m, mode, rfl, rfl, rfl⟩ | ⟨rfl, rfl, rfl⟩ | ⟨rfl, rfl, rfl⟩ :=
    LineKind.operand?_cases hoperand
  · obtain ⟨op, v, digits, -, hv, hdigits, rfl⟩ := h
    exact ⟨v, hv, hdigits⟩
  · apply h
  · apply h

namespace Assembly.Emits

variable {a : Assembly} {codes : List SectionCode} {i : Nat} {s : Section} {l : NumberedLine}
  {e : Address}

theorem codeOf_eq_nil (h : a.Emits resolve codes) {line : LineId}
    (hline : a.addresses.get? line = none) :
  a.codeOf line = []
  := by
  have hspan : a.object.spans.get? line = none := by
    rw [← Option.not_isSome_iff_eq_none, ← LineTable.contains, h.contains_spans,
      LineTable.contains, hline]
    intro hsome
    cases hsome
  rw [codeOf, hspan]

/-- The bytes of a section are those of its lines. -/
theorem sectionBytes_eq (h : a.Emits resolve codes) (hs : a.sections[i]? = some s)
    (hzeroed : ¬ s.isZeroed) :
  a.sectionBytes i = s.lines.flatMap fun l => a.codeOf l.id
  := by
  obtain ⟨code, hcode, hbuffer, hspans⟩ := h.exists_code hs
  have hbytes : a.sectionBytes i = code.bytes := by
    rw [sectionBytes, hbuffer, Option.getD_some]
  have hemitted : Emitted a.addresses resolve i 0 s.lines code := by
    rwa [Section.Emits, if_neg hzeroed] at hcode
  rw [hbytes]
  apply hemitted.bytes_eq_flatMap (h.sized s (List.mem_of_getElem? hs)) [] [] rfl
  · intro x hx
    rw [codeOf_eq_extract (hspans x hx), hcode.index_eq x hx, hbytes, List.nil_append,
      List.append_nil]
  · intro l _ hl
    apply h.codeOf_eq_nil hl

theorem length_sectionBytes (h : a.Emits resolve codes) (hs : a.sections[i]? = some s)
    (hzeroed : ¬ s.isZeroed) :
  (a.sectionBytes i).length = s.bounds.byteCount
  := by
  obtain ⟨code, hcode, hbuffer, -⟩ := h.exists_code hs
  have hmem := List.mem_of_getElem? hs
  rw [Section.Emits, if_neg hzeroed] at hcode
  rw [sectionBytes, hbuffer, Option.getD_some, hcode.length_bytes (h.sized s hmem),
    h.byteCount_eq s hmem]

/-- A zeroed section has no bytes, and the spans of its lines are empty. -/
theorem span_of_isZeroed (h : a.Emits resolve codes) (hs : a.sections[i]? = some s)
    (hzeroed : s.isZeroed) :
  a.sectionBytes i = []
    ∧ ∀ l ∈ s.lines, a.addresses.contains l.id → a.object.spans.get? l.id = some ⟨i, 0, 0⟩
  := by
  obtain ⟨code, hcode, hbuffer, hspans⟩ := h.exists_code hs
  rw [Section.Emits, if_pos hzeroed] at hcode
  subst hcode
  constructor
  · rw [sectionBytes, hbuffer, Option.getD_some]
  · intro l hl hcontains
    apply hspans (l.id, ⟨i, 0, 0⟩)
    apply List.mem_map_of_mem (List.mem_filter.mpr ⟨hl, hcontains⟩)

/-- A stored line has its span in its section, and its encoding there. -/
theorem exists_span (h : a.Emits resolve codes) (hs : a.sections[i]? = some s)
    (hzeroed : ¬ s.isZeroed) (hl : l ∈ s.lines) (he : a.addresses.get? l.id = some e) :
  ∃ span, a.object.spans.get? l.id = some span ∧ span.index = i
    ∧ span.start ≤ span.stop ∧ span.stop ≤ (a.sectionBytes i).length
    ∧ (a.codeOf l.id).length = e.size.toNat
    ∧ Pep10.Encodes resolve e.size.toNat (a.codeOf l.id) l.line.kind
  := by
  obtain ⟨code, hcode, hbuffer, hspans⟩ := h.exists_code hs
  have hbytes' : a.sectionBytes i = code.bytes := by
    rw [sectionBytes, hbuffer, Option.getD_some]
  have hemitted : Emitted a.addresses resolve i 0 s.lines code := by
    rwa [Section.Emits, if_neg hzeroed] at hcode
  obtain ⟨before, bytes, after, hbytes, hencodes, hlength, hspan⟩ :=
    hemitted.slice (h.sized s (List.mem_of_getElem? hs)) hl he
  have hcodeOf : a.codeOf l.id = bytes := by
    rw [codeOf_eq_extract (hspans _ hspan), hbytes', hbytes, ← hlength]
    simp
  refine ⟨_, hspans _ hspan, rfl, Nat.le_add_right _ _, ?_, ?_, ?_⟩
  · rw [hbytes', hbytes, ← hlength]
    simp
  · rw [hcodeOf, hlength]
  · rw [hcodeOf]
    apply hencodes

/-- Relocations come from the stored lines. -/
theorem mem_relocations_iff (h : a.Emits resolve codes) {r : Relocation} :
  r ∈ a.object.relocations
    ↔ ∃ i s l, a.sections[i]? = some s ∧ ¬ s.isZeroed ∧ l ∈ s.lines
      ∧ relocation? a.addresses a.object.spans resolve i l = some r
  := by
  have hsized : ∀ x ∈ a.sections.zipIdx, Sized a.addresses x.1.lines :=
    fun x hx => h.sized x.1 (List.fst_mem_of_mem_zipIdx hx)
  have hspans : ∀ x ∈ codes.flatMap (·.spans), a.object.spans.get? x.1 = some x.2 :=
    fun x hx => h.get?_spans_iff.mpr hx
  have hrelocations : a.object.relocations = codes.flatMap (·.relocations) := by
    rw [h.object_eq]
  rw [hrelocations, h.emitsAll.relocations_eq hsized hspans, List.mem_flatMap]
  constructor
  · rintro ⟨⟨s, i⟩, hs, hr⟩
    rw [List.mem_zipIdx_iff_getElem?] at hs
    simp only at hr
    split at hr
    · cases hr
    · next hzeroed =>
      obtain ⟨l, hl, hr⟩ := List.mem_filterMap.mp hr
      exact ⟨i, s, l, hs, hzeroed, hl, hr⟩
  · rintro ⟨i, s, l, hs, hzeroed, hl, hr⟩
    use (s, i), List.mem_zipIdx_iff_getElem?.mpr hs
    simp only [if_neg hzeroed]
    apply List.mem_filterMap.mpr ⟨l, hl, hr⟩

theorem map_fst_storedIn_sublist (a : Assembly) (s : Section) :
  ((a.storedIn s).map (·.1)).Sublist (s.lines.map (·.id))
  := by
  rw [storedIn]
  split
  · apply List.nil_sublist
  · have hfilter : (a.addresses.entriesOf s.lines).map (·.1)
        = (s.lines.filter (a.addresses.contains ·.id)).map (·.id) := by
      rw [LineTable.entriesOf, List.map_filterMap, ← List.filterMap_eq_map, List.filterMap_filter]
      apply List.filterMap_congr
      intro l _
      rw [LineTable.contains]
      cases a.addresses.get? l.id with
      | none => rfl
      | some e => rfl
    rw [hfilter]
    apply List.filter_sublist.map

/-- No line is stored twice. -/
theorem nodup_storedLines (h : a.Emits resolve codes) :
  (a.storedLines.map (·.1)).Nodup
  := by
  apply List.Nodup.sublist _ h.nodup_id
  rw [storedLines, sectionOrder, List.map_flatMap, List.map_flatMap]
  apply List.Sublist.flatMap_right
  intro s _
  apply map_fst_storedIn_sublist

/-! ### Operands -/

variable {offset : Nat} {width : UInt8} {name : String} {r : SymbolRef}

theorem line_unique (h : a.Emits resolve codes) (hl : l ∈ sectionOrder a.sections)
    {l' : NumberedLine} (hl' : l' ∈ sectionOrder a.sections) (hid : l'.id = l.id) :
  l' = l
  := List.inj_on_of_nodup_map h.nodup_id hl' hl hid

/-- A line whose operand has a value has no relocation. -/
theorem relocation_line_ne (h : a.Emits resolve codes) (hl : l ∈ sectionOrder a.sections)
    (hpending : l.line.kind.pending? resolve = none) :
  ∀ rel ∈ a.object.relocations, rel.line ≠ l.id
  := by
  intro rel hrel hline
  obtain ⟨i, s, l', hs, -, hl', hrel⟩ := h.mem_relocations_iff.mp hrel
  simp only [relocation?, Option.bind_eq_bind, Option.bind_eq_some_iff, Option.pure_def,
    Option.some_inj] at hrel
  obtain ⟨e, -, span, -, place, hplace, rfl⟩ := hrel
  have hmem := List.mem_flatMap.mpr ⟨s, List.mem_of_getElem? hs, hl'⟩
  obtain rfl := h.line_unique hl hmem hline
  cases hpending.symm.trans hplace

theorem exists_of_stores (h : a.Emits resolve codes) (hl : l ∈ sectionOrder a.sections)
    (hstores : a.Stores l.id e) :
  ∃ (i : Nat) (s : Section), a.sections[i]? = some s ∧ ¬ s.isZeroed ∧ l ∈ s.lines
  := by
  obtain ⟨he, s, hs, hzeroed, hline⟩ := hstores
  obtain ⟨l', hl', hid⟩ := List.mem_map.mp hline
  obtain rfl := h.line_unique hl (List.mem_flatMap.mpr ⟨s, hs, hl'⟩) hid
  obtain ⟨i, hi⟩ := List.mem_iff_getElem?.mp hs
  use i, s

/-- An operand holds the value of its symbol. -/
theorem holds (h : a.Emits resolve codes) (hl : l ∈ sectionOrder a.sections)
    (hoperand : l.line.kind.operand? = some (offset, width, .symbolic name r)) {v : UInt64}
    (hr : resolve r = some v) (hstores : a.Stores l.id e) :
  a.Holds l.id offset width v
  := by
  obtain ⟨i, s, hs, hzeroed, hmem⟩ := h.exists_of_stores hl hstores
  obtain ⟨span, -, -, -, -, -, hencodes⟩ := h.exists_span hs hzeroed hmem hstores.1
  obtain ⟨w, hw, hdigits⟩ := hencodes.operand hoperand
  rw [Argument.hasValue_symbolic_iff, hr, Option.getD_some] at hw
  rw [hw] at hdigits
  use hdigits
  apply h.relocation_line_ne hl
  simp [LineKind.pending?, hoperand, Argument.pending?, hr]

/-- An operand whose symbol has no value has a relocation. -/
theorem awaits (h : a.Emits resolve codes) (hl : l ∈ sectionOrder a.sections)
    (hoperand : l.line.kind.operand? = some (offset, width, .symbolic name r))
    (hr : resolve r = none) (hstores : a.Stores l.id e) :
  a.Awaits l.id offset width name
  := by
  obtain ⟨i, s, hs, hzeroed, hmem⟩ := h.exists_of_stores hl hstores
  obtain ⟨span, hspan, rfl, -, -, -, hencodes⟩ := h.exists_span hs hzeroed hmem hstores.1
  obtain ⟨w, hw, hdigits⟩ := hencodes.operand hoperand
  rw [Argument.hasValue_symbolic_iff, hr, Option.getD_none] at hw
  rw [hw, digits_iff (LineKind.width_le hoperand), toBigEndian_zero] at hdigits
  use hdigits.2, span, hspan
  rw [h.mem_relocations_iff]
  use span.index, s, l, hs, hzeroed, hmem
  simp [relocation?, hstores.1, hspan, LineKind.pending?, hoperand, Argument.pending?, hr]

end Assembly.Emits

end Pep10
