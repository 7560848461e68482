import Pep10.Proofs.LateDefinition
import Pep10.Proofs.Layout.Relabeling

/-!
# Interleaved sections

A program can switch between its sections as often as it likes.  Where it does so decides on the
numbers of its lines, and on nothing else: two programs whose sections have the same lines in the
same order are assembled to the same bytes at the same addresses, with the same symbols.  Their
tables differ in the numbers of lines, which are those that stand at the same places.
-/

namespace Pep10

/-! ### Tables of relabelled lines -/

namespace LineTable

variable {α : Type} {f : LineId → LineId} {ids : List LineId} {inserts : List (LineId × α)}

theorem nodup_map_inserts (hids : (ids.map f).Nodup) (hsub : inserts.map (·.1) ⊆ ids)
    (hnodup : (inserts.map (·.1)).Nodup) :
  ((inserts.map (Prod.map f id)).map (·.1)).Nodup
  := by
  have hmap : (inserts.map (Prod.map f id)).map (·.1) = (inserts.map (·.1)).map f := by
    rw [List.map_map, List.map_map]
    rfl
  rw [hmap]
  apply hnodup.map_on
  intro x hx y hy
  apply List.inj_on_of_nodup_map hids (hsub hx) (hsub hy)

/-- The table of renumbered insertions has the old values at the new numbers. -/
theorem get?_ofInserts_map (hids : (ids.map f).Nodup) (hsub : inserts.map (·.1) ⊆ ids)
    (hnodup : (inserts.map (·.1)).Nodup) {line : LineId} (hline : line ∈ ids) :
  (ofInserts (inserts.map (Prod.map f id))).get? (f line) = (ofInserts inserts).get? line
  := by
  apply Option.ext
  intro value
  rw [get?_ofInserts_of_nodup (nodup_map_inserts hids hsub hnodup),
    get?_ofInserts_of_nodup hnodup, List.mem_map]
  constructor
  · rintro ⟨⟨line', value'⟩, hmem, heq⟩
    obtain ⟨hline', rfl⟩ := Prod.mk.inj heq
    have hmem' : line' ∈ ids := hsub (List.mem_map_of_mem hmem)
    rwa [← List.inj_on_of_nodup_map hids hmem' hline hline']
  · intro hmem
    use (line, value), hmem
    rfl

/-- The table of renumbered insertions has the old entries under the new numbers. -/
theorem toList_ofInserts_map_perm (hids : (ids.map f).Nodup) (hsub : inserts.map (·.1) ⊆ ids)
    (hnodup : (inserts.map (·.1)).Nodup) :
  (ofInserts (inserts.map (Prod.map f id))).toList.Perm
    ((ofInserts inserts).toList.map (Prod.map f id))
  := by
  apply (toList_ofInserts_perm (nodup_map_inserts hids hsub hnodup)).trans
  apply ((toList_ofInserts_perm hnodup).map _).symm

end LineTable

theorem filterMap_entry?_relabel (r : Relabeling) (ps : List Placement) :
  (ps.map (·.relabel r)).filterMap Placement.entry?
    = (ps.filterMap Placement.entry?).map (Prod.map r.id id)
  := by
  rw [List.filterMap_map, List.map_filterMap]
  apply List.filterMap_congr
  intro p _
  by_cases h : p.size = 0
  · simp [Placement.relabel, Placement.entry?, h]
  · simp [Placement.relabel, Placement.entry?, h]

theorem filterMap_definition?_relabel (r : Relabeling) (ps : List Placement) :
  (ps.map (·.relabel r)).filterMap (·.definition?) = ps.filterMap (·.definition?)
  := by
  rw [List.filterMap_map]
  rfl

/-! ### The code of relabelled lines -/

/-- A relocation under the new number of its line. -/
def Relocation.relabel (r : Relabeling) (x : Relocation) : Relocation :=
  { x with line := r.id x.line }

/-- The code of relabelled lines. -/
def SectionCode.relabel (r : Relabeling) (code : SectionCode) : SectionCode where
  bytes := code.bytes
  relocations := code.relocations.map (·.relabel r)
  spans := code.spans.map (Prod.map r.id id)

theorem SectionCode.relabel_cons (r : Relabeling) (index start size : Nat) (l : NumberedLine)
    (code : LineCode) (rest : SectionCode) :
  (SectionCode.cons index start size l code rest).relabel r
    = .cons index start size (l.relabel r) code (rest.relabel r)
  := by
  simp only [relabel, cons, List.map_append, List.map_map, List.map_cons, NumberedLine.id_relabel]
  rfl

section

variable {resolve : SymbolRef → Option UInt64} {addresses addresses' : LineTable Address}
  {index start : Nat} {r : Relabeling} {code : SectionCode}

/-- A line with an address can be relabelled without a change to its code. -/
def KeepsCode (addresses : LineTable Address) (resolve : SymbolRef → Option UInt64)
    (r : Relabeling) (l : NumberedLine) : Prop :=
  ∀ e, addresses.get? l.id = some e → ∀ code, encodeLine resolve l e.size.toNat = .ok code →
    encodeLine resolve (l.relabel r) e.size.toNat = .ok code

/-- What a line is encoded as depends on its kind only. -/
theorem keepsCode_of_kind_eq {lines : List NumberedLine} (hsized : Sized addresses lines)
    {l : NumberedLine} (hl : l ∈ lines) (hkind : (l.relabel r).line.kind = l.line.kind) :
  KeepsCode addresses resolve r l
  := by
  intro e he code hcode
  obtain ⟨hne, base, hbase⟩ := hsized.of_some l hl e he
  have hne' : (l.relabel r).line.size base ≠ 0 := by rwa [l.size_relabel r, ← hbase]
  rw [hbase, ← l.size_relabel r, encodeLine_eq_ok_iff hne', l.size_relabel r, hkind]
  rw [hbase] at hne hcode
  apply (encodeLine_eq_ok_iff hne).mp hcode

theorem Emitted.relabel {lines : List NumberedLine}
    (h : Emitted addresses resolve index start lines code)
    (hkeeps : ∀ l ∈ lines, KeepsCode addresses resolve r l)
    (hget : ∀ l ∈ lines, addresses'.get? (r.id l.id) = addresses.get? l.id) :
  Emitted addresses' resolve index start (lines.map (·.relabel r)) (code.relabel r)
  := by
  induction h with
  | nil => apply Emitted.nil
  | skip hl _ ih =>
      rw [List.forall_mem_cons] at hkeeps hget
      apply Emitted.skip _ (ih hkeeps.2 hget.2)
      rw [NumberedLine.id_relabel, hget.1, hl]
  | line hl hcode _ ih =>
      rw [List.forall_mem_cons] at hkeeps hget
      rw [SectionCode.relabel_cons, List.map_cons]
      apply Emitted.line _ (hkeeps.1 _ hl _ hcode) (ih hkeeps.2 hget.2)
      rw [NumberedLine.id_relabel, hget.1, hl]

theorem Section.Emits.relabel {s : Section} (h : s.Emits addresses resolve index code)
    (hkeeps : ¬ s.isZeroed → ∀ l ∈ s.lines, KeepsCode addresses resolve r l)
    (hget : ∀ l ∈ s.lines, addresses'.get? (r.id l.id) = addresses.get? l.id) :
  (s.relabel r).Emits addresses' resolve index (code.relabel r)
  := by
  have hzeroed : (s.relabel r).isZeroed = s.isZeroed := rfl
  rw [Section.Emits] at h ⊢
  rw [hzeroed]
  split at h
  · next hs =>
    rw [if_pos hs, h, Section.relabel, List.filter_map, List.map_map]
    have hfilter : s.lines.filter ((addresses'.contains ·.id) ∘ (·.relabel r))
        = s.lines.filter (addresses.contains ·.id) := by
      apply List.filter_congr
      intro l hl
      rw [Function.comp_apply, LineTable.contains, LineTable.contains, ← hget l hl,
        NumberedLine.id_relabel]
    simp only [hfilter, SectionCode.relabel, List.map_map, List.map_nil]
    congr 1
    apply List.map_congr_left
    intro l _
    rw [Function.comp_apply, Function.comp_apply, NumberedLine.id_relabel]
    rfl
  · next hs =>
    rw [if_neg hs]
    apply Emitted.relabel h (hkeeps hs) hget

theorem EmitsAll.relabel {sections : List (Section × Nat)} {codes : List SectionCode}
    (h : EmitsAll addresses resolve sections codes)
    (hkeeps : ∀ x ∈ sections, ¬ x.1.isZeroed → ∀ l ∈ x.1.lines,
      KeepsCode addresses resolve r l)
    (hget : ∀ x ∈ sections, ∀ l ∈ x.1.lines, addresses'.get? (r.id l.id) = addresses.get? l.id) :
  EmitsAll addresses' resolve (sections.map (Prod.map (·.relabel r) id))
    (codes.map (·.relabel r))
  := by
  induction h with
  | nil => apply List.Forall₂.nil
  | cons hx _ ih =>
      rw [List.forall_mem_cons] at hkeeps hget
      exact .cons (hx.relabel hkeeps.1 hget.1) (ih hkeeps.2 hget.2)

end

/-! ### Sections of relabelled lines -/

theorem Section.note_setOperand (s : Section) (a : Argument) (kind : LineKind) :
  s.note (kind.setOperand a) = s.note kind
  := by
  fun_cases LineKind.setOperand a kind with
  | case1 => rfl
  | case2 => rfl
  | case3 => rfl
  | case4 => rfl

theorem Section.relabel_note (r : Relabeling) (s : Section) (kind : LineKind) :
  (s.note kind).relabel r = (s.relabel r).note kind
  := by
  cases kind with
  | align a => rfl
  | _ => rfl

/-- Relabelled lines are noted as they were. -/
theorem Section.relabel_ofLines (r : Relabeling) (h : Heading) (lines : List NumberedLine) :
  (ofLines h lines).relabel r = ofLines h (lines.map (·.relabel r))
  := by
  induction lines using List.reverseRecOn with
  | nil => rfl
  | append_singleton lines l ih =>
      obtain ⟨a, ha⟩ := l.exists_kind_relabel r
      rw [List.map_append, List.map_singleton, ofLines_concat, ofLines_concat, ← ih, ha,
        note_setOperand, ← relabel_note]
      simp [push, relabel]

/-! ### Programs with the same sections -/

/-- What matters of a line. -/
def NumberedLine.shape (l : NumberedLine) : LineKind × Option SymbolId :=
  (l.line.kind, l.line.symbol?)

/-- What matters of a section that has not been laid out. -/
def Section.shape (s : Section) : Heading × List (LineKind × Option SymbolId) :=
  (s.toHeading, s.lines.map (·.shape))

/-- The number that stands at the same place in another list. -/
def renumber (ids ids' : List LineId) (id : LineId) : LineId :=
  (ids'[ids.idxOf id]?).getD id

/-- The relabelling that makes of some lines others at the same places. -/
def Relabeling.between (order order' : List NumberedLine) : Relabeling where
  line l :=
    { id := renumber (order.map (·.id)) (order'.map (·.id)) l.id
      line := { l.line with
        comment? := (order'[(order.map (·.id)).idxOf l.id]?).bind (·.line.comment?) } }
  id := renumber (order.map (·.id)) (order'.map (·.id))
  id_line _ := rfl
  symbol?_line _ := rfl
  kind_line l := l.line.kind.exists_setOperand_self

theorem map_relabel_between {order order' : List NumberedLine}
    (hnodup : (order.map (·.id)).Nodup)
    (hshape : order'.map (·.shape) = order.map (·.shape)) :
  order.map (·.relabel (.between order order')) = order'
  := by
  have hlength : order'.length = order.length := by simpa using congrArg List.length hshape
  apply List.ext_getElem
  · rw [List.length_map, hlength]
  · intro k hk hk'
    rw [List.length_map] at hk
    have hidx : (order.map (·.id)).idxOf order[k].id = k := by
      have hget := hnodup.idxOf_getElem k (by simpa using hk)
      rwa [List.getElem_map] at hget
    have hshapes : order'[k].shape = order[k].shape := by
      have hget := congrArg (·[k]?) hshape
      simpa [hk, hk'] using hget
    obtain ⟨hkind, hsymbol⟩ := Prod.mk.inj hshapes
    have hid : renumber (order.map (·.id)) (order'.map (·.id)) order[k].id = order'[k].id := by
      rw [renumber, hidx, List.getElem?_map, List.getElem?_eq_getElem hk']
      rfl
    have hcomment : (order'[(order.map (·.id)).idxOf order[k].id]?).bind (·.line.comment?)
        = order'[k].line.comment? := by
      rw [hidx, List.getElem?_eq_getElem hk']
      rfl
    rw [List.getElem_map]
    simp only [NumberedLine.relabel, Relabeling.between, hid, hcomment, ← hkind, ← hsymbol]

theorem map_relabel_sections {r : Relabeling} {sections sections' : List Section}
    (hshape : sections'.map Section.shape = sections.map Section.shape)
    (hlines : ∀ s ∈ sections, s = .ofLines s.toHeading s.lines)
    (hlines' : ∀ s ∈ sections', s = .ofLines s.toHeading s.lines)
    (horder : (sectionOrder sections).map (·.relabel r) = sectionOrder sections') :
  sections.map (·.relabel r) = sections'
  := by
  induction sections generalizing sections' with
  | nil => simpa using hshape.symm
  | cons s sections ih =>
      cases sections' with
      | nil => cases hshape
      | cons s' sections' =>
          rw [List.map_cons, List.map_cons, List.cons.injEq] at hshape
          rw [List.forall_mem_cons] at hlines hlines'
          obtain ⟨hheading, hshapes⟩ := Prod.mk.inj hshape.1
          have hlength : s'.lines.length = s.lines.length := by
            simpa using congrArg List.length hshapes
          rw [sectionOrder, List.flatMap_cons, List.map_append, sectionOrder,
            List.flatMap_cons] at horder
          obtain ⟨hs, hrest⟩ := List.append_inj horder (by rw [List.length_map, hlength])
          rw [List.map_cons, ih hshape.2 hlines.2 hlines'.2 hrest, hlines.1,
            Section.relabel_ofLines, hs, ← hheading, ← hlines'.1]

theorem map_shape_sectionOrder (sections : List Section) :
  (sectionOrder sections).map (·.shape) = (sections.map Section.shape).flatMap (·.2)
  := by
  rw [sectionOrder, List.map_flatMap, List.flatMap_map]
  rfl

section

variable {P Q : Program} {symbols : SymbolTable} {initial : Heading}
  {sections sections' : List Section}

/-- Sections of the same shapes are relabelled sections. -/
theorem map_relabel_between_sections (hP : P.sections symbols initial = .ok sections)
    (hQ : Q.sections symbols initial = .ok sections')
    (hshape : sections'.map Section.shape = sections.map Section.shape) :
  sections.map (·.relabel (.between (sectionOrder sections) (sectionOrder sections')))
    = sections'
  := by
  apply map_relabel_sections hshape (fun s => Program.eq_ofLines hP)
    (fun s => Program.eq_ofLines hQ)
  · apply map_relabel_between (Program.nodup_sectionOrder hP)
    rw [map_shape_sectionOrder, map_shape_sectionOrder, hshape]

end

/-! ### Assembling relabelled programs -/

/-- The assembly `b` is the assembly `a` with other numbers of lines.  The entries of tables are in
the order of these numbers. -/
structure Assembly.Renumbers (a b : Assembly) (f : LineId → LineId) : Prop where
  lines : b.sections.map (·.lines.map (·.id)) = a.sections.map (·.lines.map (f ·.id))
  descriptors : b.sections.map (·.toDescriptor) = a.sections.map (·.toDescriptor)
  addresses : b.addresses.toList.Perm (a.addresses.toList.map (Prod.map f id))
  buffers : b.object.buffers = a.object.buffers
  relocations : b.object.relocations
    = a.object.relocations.map fun x => { x with line := f x.line }
  spans : b.object.spans.toList.Perm (a.object.spans.toList.map (Prod.map f id))

theorem lines_relabel (r : Relabeling) (sections : List Section) :
  (sections.map (·.relabel r)).map (·.lines.map (·.id))
    = sections.map (·.lines.map (r.id ·.id))
  := by
  rw [List.map_map]
  apply List.map_congr_left
  intro s _
  rw [Function.comp_apply, Section.relabel, List.map_map]
  apply List.map_congr_left
  intro l _
  apply NumberedLine.id_relabel

theorem map_id_sectionOrder_relabel (r : Relabeling) (sections : List Section) :
  (sectionOrder (sections.map (·.relabel r))).map (·.id)
    = ((sectionOrder sections).map (·.id)).map r.id
  := by
  rw [sectionOrder_relabel, List.map_map, List.map_map]
  apply List.map_congr_left
  intro l _
  apply NumberedLine.id_relabel

namespace Assembly.Emits

variable {a : Assembly} {resolve : SymbolRef → Option UInt64} {codes : List SectionCode}
  {r : Relabeling}

theorem relabel (h : a.Emits resolve codes) {addresses' : LineTable Address}
    (hkeeps : ∀ s ∈ a.sections, ¬ s.isZeroed → ∀ l ∈ s.lines,
      KeepsCode a.addresses resolve r l)
    (hget : ∀ l ∈ sectionOrder a.sections,
      addresses'.get? (r.id l.id) = a.addresses.get? l.id) :
  EmitsAll addresses' resolve (a.sections.map (·.relabel r)).zipIdx (codes.map (·.relabel r))
  := by
  have hmem : ∀ x ∈ a.sections.zipIdx, x.1 ∈ a.sections :=
    fun x hx => List.fst_mem_of_mem_zipIdx hx
  rw [List.zipIdx_map]
  apply h.emitsAll.relabel
  · intro x hx
    apply hkeeps x.1 (hmem x hx)
  · intro x hx l hl
    apply hget l (List.mem_flatMap.mpr ⟨x.1, hmem x hx, hl⟩)

/-- The relabelled codes make up the object code under the new numbers. -/
theorem object_relabel (h : a.Emits resolve codes)
    (hids : (((sectionOrder a.sections).map (·.id)).map r.id).Nodup) :
  (codes.map (·.relabel r)).map (·.bytes) = a.object.buffers
    ∧ (codes.map (·.relabel r)).flatMap (·.relocations)
      = a.object.relocations.map (·.relabel r)
    ∧ (LineTable.ofInserts ((codes.map (·.relabel r)).flatMap (·.spans))).toList.Perm
      (a.object.spans.toList.map (Prod.map r.id id))
  := by
  have hspans : (codes.map (·.relabel r)).flatMap (·.spans)
      = (codes.flatMap (·.spans)).map (Prod.map r.id id) := by
    rw [List.flatMap_map, List.map_flatMap]
    rfl
  have hsub : ((codes.flatMap (·.spans)).map (·.1)).Sublist
      ((sectionOrder a.sections).map (·.id)) := by
    rw [h.map_fst_spans]
    apply List.filter_sublist.map
  rw [h.object_eq, hspans]
  refine ⟨?_, ?_, ?_⟩
  · rw [List.map_map]
    rfl
  · rw [List.flatMap_map, List.map_flatMap]
    rfl
  · apply LineTable.toList_ofInserts_map_perm hids hsub.subset (h.nodup_id.sublist hsub)

end Assembly.Emits

section

variable {P Q : Program} {symbols : SymbolTable} {initial : Heading}
  {sections laid : List Section} {base : UInt16}

/-- Every line has one entry at most, and only lines of the program have one. -/
theorem entries_of_assign (hP : P.sections symbols initial = .ok sections)
    (hassign : (assign symbols.id sections base).outcome = .ok laid) :
  (((assign symbols.id sections base).placements.filterMap Placement.entry?).map (·.1)).Nodup
    ∧ ((assign symbols.id sections base).placements.filterMap Placement.entry?).map (·.1)
      ⊆ (sectionOrder sections).map (·.id)
  := by
  have hperm := (assign_lines_perm hP hassign).map (·.id)
  rw [List.map_map] at hperm
  constructor
  · apply nodup_entries
    apply hperm.nodup_iff.mpr (Program.nodup_sectionOrder hP)
  · rw [entries_eq, List.map_map]
    apply List.Subset.trans _ hperm.subset
    apply (List.filter_sublist.map _).subset

/-- A relabelled layout has the old addresses under the new numbers, and makes the same
definitions. -/
theorem assign_relabel {r : Relabeling} (hP : P.sections symbols initial = .ok sections)
    (hassign : (assign symbols.id sections base).outcome = .ok laid)
    (hids : (((sectionOrder sections).map (·.id)).map r.id).Nodup) :
  (assign symbols.id (sections.map (·.relabel r)) base).outcome = .ok (laid.map (·.relabel r))
    ∧ (∀ t, (assign symbols.id (sections.map (·.relabel r)) base).enterInto t
      = (assign symbols.id sections base).enterInto t)
    ∧ (∀ l ∈ sectionOrder sections,
      (assign symbols.id (sections.map (·.relabel r)) base).addresses.get? (r.id l.id)
        = (assign symbols.id sections base).addresses.get? l.id)
    ∧ (assign symbols.id (sections.map (·.relabel r)) base).addresses.toList.Perm
      ((assign symbols.id sections base).addresses.toList.map (Prod.map r.id id))
  := by
  obtain ⟨hnodup, hsub⟩ := entries_of_assign hP hassign
  rw [tracks_assign r (Program.sections_ne_nil hP) laid hassign]
  refine ⟨rfl, ?_, ?_, ?_⟩
  · intro t
    rw [Traced.enterInto, filterMap_definition?_relabel]
    rfl
  · intro l hl
    rw [Traced.addresses, filterMap_entry?_relabel]
    apply LineTable.get?_ofInserts_map hids hsub hnodup (List.mem_map_of_mem hl)
  · rw [Traced.addresses, filterMap_entry?_relabel]
    apply LineTable.toList_ofInserts_map_perm hids hsub hnodup

end

section

variable {P Q : Program} {symbols : SymbolTable} {options : Options}
  {sections sections' : List Section} {a : Assembly}

/-- A program with relabelled sections is assembled to a relabelled assembly, if the lines keep
their code. -/
theorem exists_assemble_of_keepsCode {r : Relabeling}
    (hP : P.sections symbols options.initial = .ok sections)
    (hQ : Q.sections symbols options.initial = .ok (sections.map (·.relabel r)))
    (ha : (assemble P symbols options).outcome = .ok a)
    (hkeeps : ∀ s ∈ a.sections, ¬ s.isZeroed → ∀ l ∈ s.lines, KeepsCode a.addresses
      ((assemble P symbols options).symbols.resolveRef · options.linked) r l) :
  ∃ b, (assemble Q symbols options).outcome = .ok b
    ∧ (assemble Q symbols options).symbols = (assemble P symbols options).symbols
    ∧ a.Renumbers b r.id
  := by
  have hbound := fun program : Program =>
    program.sections_bindImports symbols options.linked options.initial
  obtain ⟨split, hsplit, hassign, haddresses, horder, hsymbols⟩ := exists_layout_of_assemble ha
  obtain rfl : split = sections := by
    rw [hbound, hP] at hsplit
    cases hsplit
    rfl
  obtain ⟨codes, hemits⟩ := exists_emits ha
  -- the numbers of lines are distinct in both programs, so that tables can be compared
  have hids := Program.nodup_sectionOrder hQ
  rw [map_id_sectionOrder_relabel] at hids
  obtain ⟨hassign', henter, hget, hperm⟩ := assign_relabel hP hassign hids
  rw [← horder] at hids hget
  rw [← haddresses] at hget hperm
  have hfinal : (assemble Q symbols options).symbols = (assemble P symbols options).symbols := by
    rw [symbols_assemble ((hbound Q).trans hQ), henter, hsymbols]
  have hemit := (emit_eq_ok_iff (assign_laid hQ hassign').2).mpr
    ⟨codes.map (·.relabel r), hemits.relabel hkeeps hget, rfl⟩
  rw [← hfinal] at hemit
  obtain ⟨hbuffers, hrelocations, hspans⟩ := hemits.object_relabel hids
  refine ⟨_, assemble_eq_ok_iff.mpr ⟨_, _, _, (hbound Q).trans hQ, hassign', hemit, rfl⟩, hfinal, {
    lines := lines_relabel r a.sections
    descriptors := ?_
    addresses := hperm
    buffers := hbuffers
    relocations := hrelocations
    spans := hspans }⟩
  rw [List.map_map]
  rfl

theorem exists_assemble_relabel {order order' : List NumberedLine}
    (hP : P.sections symbols options.initial = .ok sections)
    (hQ : Q.sections symbols options.initial
      = .ok (sections.map (·.relabel (.between order order'))))
    (ha : (assemble P symbols options).outcome = .ok a) :
  ∃ b, (assemble Q symbols options).outcome = .ok b
    ∧ (assemble Q symbols options).symbols = (assemble P symbols options).symbols
    ∧ a.Renumbers b (renumber (order.map (·.id)) (order'.map (·.id)))
  := by
  obtain ⟨codes, hemits⟩ := exists_emits ha
  apply exists_assemble_of_keepsCode hP hQ ha
  intro s hs _ l hl
  apply keepsCode_of_kind_eq (hemits.sized s hs) hl rfl

/-- Only the lines of each section matter, not how the sections are interleaved. -/
theorem assemble_of_same_shapes (hP : P.sections symbols options.initial = .ok sections)
    (hQ : Q.sections symbols options.initial = .ok sections')
    (hshape : sections'.map Section.shape = sections.map Section.shape)
    (ha : (assemble P symbols options).outcome = .ok a) :
  ∃ b, (assemble Q symbols options).outcome = .ok b
    ∧ (assemble Q symbols options).symbols = (assemble P symbols options).symbols
    ∧ a.Renumbers b
      (renumber ((sectionOrder sections).map (·.id)) ((sectionOrder sections').map (·.id)))
  := by
  rw [← map_relabel_between_sections hP hQ hshape] at hQ
  apply exists_assemble_relabel hP hQ ha

end

/-- The program `mixed` with one section after the other. -/
def Program.unmixed : Program :=
  [{ kind := .dyadic .ldwa (some .direct) (.symbolic "far" ⟨0, 0⟩) },
    { kind := .data .byte (.literal (.decimal 7)), symbol? := some 1 },
    { kind := .opening .text },
    { kind := .data .word (.symbolic "near" ⟨0, 1⟩) },
    { kind := .opening ⟨"zeros", { writable := true, zeroed := true }⟩, comment? := some "last" },
    { kind := .block (.literal (.decimal 4)) }]

theorem assemble_of_same_shapes_unmixed :
  ∃ a b, (assemble .mixed .mixed {}).outcome = .ok a
    ∧ (assemble .unmixed .mixed {}).outcome = .ok b
    ∧ (assemble .unmixed .mixed {}).symbols = (assemble .mixed .mixed {}).symbols
    ∧ a.object.buffers = [[0xC1, 0, 0, 7, 0, 3], []]
    ∧ a.Renumbers b (renumber [0, 1, 4, 5, 2, 3] [0, 1, 2, 3, 4, 5])
  := by
  obtain ⟨a, ha, hbuffers⟩ := exists_assemble_mixed
  have hP : Program.sections .mixed .mixed .text = .ok _ := rfl
  have hQ : Program.sections .unmixed .mixed .text = .ok _ := rfl
  obtain ⟨b, hb, hsymbols, hrenumbers⟩ := assemble_of_same_shapes hP hQ (by rfl) ha
  exact ⟨a, b, ha, hb, hsymbols, hbuffers, hrenumbers⟩

end Pep10
