import Pep10.Proofs.Quotation
import Pep10.Proofs.Splitting
import Mathlib.Order.Bounds.Basic

/-!
# Partitions

The sections of a program, as its lines see them.  A line belongs to the section that the last
heading up to it names, so every line is in one section and the lines of a section keep their
order.  What is accumulated on the way can be read off the lines: the alignment and the origins of
a section off its own lines, the system calls and the devices off all of them.  A heading that comes
again must have the flags it had first, and a label must be defined once; the first line that breaks
this is the one that splitting reports.
-/

namespace Pep10

/-! ### Headings by name -/

theorem map_name_firstOfEachName (hs : List Heading) :
  (firstOfEachName hs).map (·.name) = (hs.map (·.name)).eraseDups
  := by
  induction hs using List.reverseRecOn with
  | nil => rfl
  | append_singleton hs h ih =>
      rw [List.map_append, List.map_singleton, List.eraseDups_append, ← ih]
      by_cases hold : h.name ∈ hs.map (·.name)
      · rw [firstOfEachName_concat_of_mem hold]
        simp [List.removeAll, List.mem_map.mp hold]
      · rw [firstOfEachName_concat_of_notMem hold]
        rw [List.mem_map] at hold
        simp [List.removeAll, hold, List.eraseDups_cons]

theorem find?_firstOfEachName (hs : List Heading) (name : String) :
  (firstOfEachName hs).find? (·.name = name) = hs.find? (·.name = name)
  := by
  induction hs with
  | nil => rfl
  | cons h hs ih =>
      rw [firstOfEachName, List.find?_cons, List.find?_cons]
      by_cases hname : h.name = name
      · simp [hname]
      · -- leaving out the headings named as `h` leaves those named `name`
        have hkept : ∀ h' : Heading, (h'.name ≠ h.name ∧ h'.name = name) ↔ h'.name = name := by
          intro h'
          rw [and_iff_right_iff_imp]
          rintro rfl
          apply Ne.symm hname
        simp only [hname, decide_false, List.find?_filter, decide_eq_true_eq, hkept, ih]

/-- The section of a name has the first heading of that name. -/
theorem find?_zipIdx_sectionsOf (hs : List Heading) (ls : List (String × NumberedLine))
    (name : String) :
  ((sectionsOf hs ls).zipIdx.find? (·.1.name == name)).map (·.1.toHeading)
    = hs.find? (·.name = name)
  := by
  have hfirst : (sectionsOf hs ls).zipIdx.map (·.1.toHeading) = firstOfEachName hs := by
    rw [← map_toHeading_sectionsOf hs ls]
    conv_rhs => rw [← List.zipIdx_map_fst 0 (sectionsOf hs ls), List.map_map]
    rfl
  rw [← find?_firstOfEachName, ← hfirst, List.find?_map]
  rfl

/-! ### The open section -/

theorem getLast?_headings (initial : Heading) (lines : List NumberedLine) :
  (headings initial lines).getLast?.map (·.name) = some (openName initial.name lines)
  := by
  induction lines using List.reverseRecOn with
  | nil => rfl
  | append_singleton lines l ih =>
      rw [headings_concat, openName_concat, NumberedLine.nameAfter]
      cases l.heading? with
      | none => simpa using ih
      | some h => simp

theorem getElem?_named (name : String) (lines : List NumberedLine) (k : Nat) :
  (named name lines)[k]? = lines[k]?.map fun l => (openName name (lines.take (k + 1)), l)
  := by
  induction lines generalizing name k with
  | nil => rfl
  | cons l lines ih =>
      cases k with
      | zero => rfl
      | succ k =>
          rw [named, List.getElem?_cons_succ, ih, List.getElem?_cons_succ]
          rfl

theorem Program.getElem?_numbered (program : Program) (k : LineId) :
  program.numbered[k]? = program[k]?.map fun line => ⟨k, line⟩
  := by
  rw [numbered, List.getElem?_map, List.getElem?_zipIdx, Option.map_map]
  simp [Function.comp_def]

/-- A line is under the last heading up to it. -/
theorem Program.getLast?_headings_of_mem_named {program : Program} {initial : Heading}
    {name : String} {l : NumberedLine} (h : (name, l) ∈ named initial.name program.numbered) :
  (headings initial (program.numbered.take (l.id + 1))).getLast?.map (·.name) = some name
  := by
  obtain ⟨k, hk⟩ := List.mem_iff_getElem?.mp h
  rw [getElem?_named, getElem?_numbered, Option.map_map] at hk
  obtain ⟨line, -, hk⟩ := Option.map_eq_some_iff.mp hk
  cases hk
  apply getLast?_headings

/-! ### What the lines of a section ask for -/

/-- A line asks for an alignment. -/
def NumberedLine.Asks (l : NumberedLine) (n : UInt16) : Prop :=
  ∃ a, l.line.kind = .align a ∧ a.count? = some n

/-- The descriptor of a section says what its lines ask for. -/
structure Section.Faithful (s : Section) : Prop where
  /-- The alignment is the largest that a line asks for, and at least one. -/
  isGreatest_alignment : IsGreatest {n | n = 1 ∨ ∃ l ∈ s.lines, l.Asks n} s.alignment
  /-- The origins are the addresses that lines fix, of the next byte or of the last one. -/
  originCount_eq : s.originCount
    = s.lines.countP (·.line.kind matches .origin .org _ | .origin .burn _)

section

variable {lines : List NumberedLine} {l : NumberedLine} {largest n : UInt16}

theorem isGreatest_of_forall_not_asks (h : IsGreatest {n | n = 1 ∨ ∃ l ∈ lines, l.Asks n} largest)
    (hl : ∀ n, ¬ l.Asks n) :
  IsGreatest {n | n = 1 ∨ ∃ k ∈ lines ++ [l], k.Asks n} largest
  := by
  simpa [or_and_right, exists_or, hl] using h

theorem isGreatest_of_asks (h : IsGreatest {n | n = 1 ∨ ∃ l ∈ lines, l.Asks n} largest)
    (hl : ∀ m, l.Asks m ↔ m = n) :
  IsGreatest {n | n = 1 ∨ ∃ k ∈ lines ++ [l], k.Asks n} (if largest < n then n else largest)
  := by
  obtain ⟨hmem, hupper⟩ := h
  simp only [List.mem_append, List.mem_singleton, or_and_right, exists_or, exists_eq_left, hl]
  split
  · next hlt =>
    refine ⟨.inr (.inr rfl), ?_⟩
    rintro m (hm | hm | rfl)
    · apply UInt16.le_trans (hupper (.inl hm)) (UInt16.le_of_lt hlt)
    · apply UInt16.le_trans (hupper (.inr hm)) (UInt16.le_of_lt hlt)
    · apply UInt16.le_refl
  · next hle =>
    refine ⟨hmem.imp_right .inl, ?_⟩
    rintro m (hm | hm | rfl)
    · apply hupper (.inl hm)
    · apply hupper (.inr hm)
    · apply UInt16.not_lt.mp hle

end

namespace Section

variable {s : Section} {l : NumberedLine}

theorem Faithful.isGreatest_alignment_note (h : s.Faithful) (l : NumberedLine) :
  IsGreatest {n | n = 1 ∨ ∃ k ∈ s.lines ++ [l], k.Asks n} (s.note l.line.kind).alignment
  := by
  have hone : ¬ s.alignment < 1 := UInt16.not_lt.mpr (h.isGreatest_alignment.2 (.inl rfl))
  cases hkind : l.line.kind with
  | align a =>
      cases ha : a.count? with
      | none =>
          have hnone : ∀ n, ¬ l.Asks n := by simp [NumberedLine.Asks, hkind, ha]
          simpa [note, ha, hone] using isGreatest_of_forall_not_asks h.isGreatest_alignment hnone
      | some n =>
          have hasks : ∀ m, l.Asks m ↔ m = n := by simp [NumberedLine.Asks, hkind, ha, eq_comm]
          simpa [note, ha] using isGreatest_of_asks h.isGreatest_alignment hasks
  | _ =>
      have hnone : ∀ n, ¬ l.Asks n := by simp [NumberedLine.Asks, hkind]
      simpa [note] using isGreatest_of_forall_not_asks h.isGreatest_alignment hnone

theorem originCount_note (s : Section) (kind : LineKind) :
  (s.note kind).originCount
    = s.originCount + (if kind matches .origin .org _ | .origin .burn _ then 1 else 0)
  := by
  cases kind with
  | origin kind a =>
      cases kind with
      | org => rfl
      | burn => rfl
  | _ => rfl

/-- A line that is noted and pushed is counted for the section it goes to. -/
theorem Faithful.push_note (h : s.Faithful) (l : NumberedLine) :
  ((s.note l.line.kind).push l).Faithful
  := by
  have hlines : ((s.note l.line.kind).push l).lines = s.lines ++ [l] := by
    rw [push, lines_note]
  constructor
  · rw [hlines]
    apply h.isGreatest_alignment_note l
  · rw [hlines, List.countP_append, List.countP_singleton, ← h.originCount_eq]
    apply originCount_note

theorem faithful_ofLines (h : Heading) (lines : List NumberedLine) :
  (ofLines h lines).Faithful
  := by
  induction lines using List.reverseRecOn with
  | nil =>
      constructor
      · simp [ofLines, IsGreatest, upperBounds]
      · rfl
  | append_singleton lines l ih =>
      rw [ofLines_concat]
      apply ih.push_note l

end Section

/-! ### Items in the order of the lines -/

/-- The items that lines of a program give, one for each line that gives one, in the order of the
lines. -/
def Program.Collects {α : Type} (program : Program) (gives : LineKind → α → Prop)
    (items : List α) : Prop :=
  ∃ lines : List NumberedLine, lines.Sublist program.numbered
    ∧ (∀ l ∈ program.numbered, l ∈ lines ↔ ∃ item, gives l.line.kind item)
    ∧ List.Forall₂ (fun l item => gives l.line.kind item) lines items

theorem forall₂_filter_filterMap {α β : Type} (f : α → Option β) (xs : List α) :
  List.Forall₂ (fun x y => f x = some y) (xs.filter fun x => (f x).isSome) (xs.filterMap f)
  := by
  induction xs with
  | nil => apply List.Forall₂.nil
  | cons x xs ih =>
      cases hx : f x with
      | none => simpa [hx] using ih
      | some y => simpa [hx] using ih

theorem Program.collects_filterMap {α : Type} (program : Program) {f : LineKind → Option α}
    {gives : LineKind → α → Prop} (hf : ∀ kind item, f kind = some item → gives kind item)
    (hgives : ∀ kind item, gives kind item → (f kind).isSome) :
  program.Collects gives (program.filterMap fun l => f l.kind)
  := by
  refine ⟨program.numbered.filter fun l => (f l.line.kind).isSome, List.filter_sublist, ?_, ?_⟩
  · intro l hl
    rw [List.mem_filter, and_iff_right hl]
    constructor
    · intro hsome
      obtain ⟨item, hitem⟩ := Option.isSome_iff_exists.mp hsome
      use item
      apply hf _ _ hitem
    · rintro ⟨item, hitem⟩
      apply hgives _ _ hitem
  · conv => arg 3; rw [← Program.map_line_numbered program, List.filterMap_map]
    apply (forall₂_filter_filterMap (fun l : NumberedLine => f l.line.kind) _).imp
    intro l item h
    apply hf _ _ h

/-- A line declares a system call, by the text of its operand. -/
inductive LineKind.GivesSystemCall : LineKind → String → Prop
  | systemCall {a : Argument} {text : String} (h : a.HasText text) :
    GivesSystemCall (.annotate .systemCall a) text

/-- A line declares a device, by the text of its operand. -/
inductive LineKind.GivesDevice : LineKind → Device → Prop
  | input {a : Argument} {text : String} (h : a.HasText text) :
    GivesDevice (.annotate .input a) ⟨text, .input⟩
  | output {a : Argument} {text : String} (h : a.HasText text) :
    GivesDevice (.annotate .output a) ⟨text, .output⟩

theorem Program.collects_systemCalls (program : Program) :
  program.Collects LineKind.GivesSystemCall program.systemCalls
  := by
  apply collects_filterMap
  · intro kind item h
    unfold LineKind.systemCall? at h
    split at h
    · next a =>
      cases h
      apply LineKind.GivesSystemCall.systemCall a.hasText_display
    · cases h
  · rintro _ _ ⟨-⟩
    rfl

theorem Program.collects_devices (program : Program) :
  program.Collects LineKind.GivesDevice program.devices
  := by
  apply collects_filterMap
  · intro kind item h
    unfold LineKind.device? at h
    split at h
    · next a =>
      cases h
      apply LineKind.GivesDevice.input a.hasText_display
    · next a =>
      cases h
      apply LineKind.GivesDevice.output a.hasText_display
    · cases h
  · rintro _ _ (⟨-⟩ | ⟨-⟩)
    · rfl
    · rfl

/-! ### Sections as parts of a program -/

/-- Sections divide the lines of a program, as its headings say. -/
structure Program.Partitions (program : Program) (initial : Heading) (sections : List Section) :
    Prop where
  initial_eq : sections.head?.map (·.toHeading) = some initial
  /-- Sections stand in the order of the first headings with their names. -/
  names_eq : sections.map (·.name) = ((headings initial program.numbered).map (·.name)).eraseDups
  nodup_names : (sections.map (·.name)).Nodup
  /-- The flags are those of the first heading. -/
  heading_eq : ∀ s ∈ sections,
    (headings initial program.numbered).find? (·.name = s.name) = some s.toHeading
  /-- Nothing has an address yet. -/
  bounds_eq : ∀ s ∈ sections, s.bounds = {}
  line_eq : ∀ s ∈ sections, ∀ l ∈ s.lines, program[l.id]? = some l.line
  ascending : ∀ s ∈ sections, (s.lines.map (·.id)).Pairwise (· < ·)
  /-- Every line is in one section. -/
  existsUnique : ∀ k < program.length,
    ∃! index : Nat, ∃ s : Section, sections[index]? = some s ∧ k ∈ s.lines.map (·.id)
  /-- A line is in the section of the last heading up to it. -/
  name_eq : ∀ s ∈ sections, ∀ l ∈ s.lines,
    (headings initial (program.numbered.take (l.id + 1))).getLast?.map (·.name) = some s.name
  faithful : ∀ s ∈ sections, s.Faithful

section

variable {program : Program} {initial : Heading} {s : Section}

theorem find?_headings_of_mem_outline {lines : List NumberedLine} (hs : s ∈ outline initial lines) :
  (headings initial lines).find? (·.name = s.name) = some s.toHeading
  := by
  obtain ⟨h, hh, rfl⟩ := List.mem_map.mp hs
  rw [← find?_firstOfEachName, Section.toHeading_ofLines]
  have hsome : ((firstOfEachName (headings initial lines)).find? (·.name = h.name)).isSome :=
    List.find?_isSome.mpr ⟨h, hh, decide_eq_true rfl⟩
  obtain ⟨g, hg⟩ := Option.isSome_iff_exists.mp hsome
  have hname : g.name = h.name := by simpa using List.find?_some hg
  rw [hg, List.inj_on_of_nodup_map (nodup_name_firstOfEachName _) (List.mem_of_find?_eq_some hg) hh
    hname]

theorem Program.name_eq_of_mem_outline (hs : s ∈ outline initial program.numbered)
    {l : NumberedLine} (hl : l ∈ s.lines) :
  (headings initial (program.numbered.take (l.id + 1))).getLast?.map (·.name) = some s.name
  := by
  obtain ⟨h, -, rfl⟩ := List.mem_map.mp hs
  rw [Section.lines_ofLines] at hl
  rw [Section.toHeading_ofLines]
  obtain ⟨⟨name, l⟩, hmem, rfl⟩ := List.mem_map.mp hl
  obtain ⟨hmem, hname⟩ := List.mem_filter.mp hmem
  rw [decide_eq_true_eq] at hname
  cases hname
  apply getLast?_headings_of_mem_named hmem

theorem Program.partitions_outline (program : Program) (initial : Heading) :
  program.Partitions initial (outline initial program.numbered)
  := by
  have hnames : (outline initial program.numbered).map (·.name)
      = (firstOfEachName (headings initial program.numbered)).map (·.name) :=
    map_name_sectionsOf _ _
  have hnodup : ((outline initial program.numbered).map (·.name)).Nodup := by
    rw [hnames]
    apply nodup_name_firstOfEachName
  refine
    { initial_eq := ?_
      names_eq := hnames.trans (map_name_firstOfEachName _)
      nodup_names := hnodup
      heading_eq := fun s hs => find?_headings_of_mem_outline hs
      bounds_eq := ?_
      line_eq := ?_
      ascending := ?_
      existsUnique := ?_
      name_eq := fun s hs l hl => name_eq_of_mem_outline hs hl
      faithful := ?_ }
  · rw [← List.head?_map, outline, map_toHeading_sectionsOf]
    rfl
  · intro s hs
    obtain ⟨h, -, rfl⟩ := List.mem_map.mp hs
    apply Section.bounds_ofLines
  · intro s hs l hl
    apply getElem?_of_mem_numbered ((lines_sublist_of_mem_outline hs).subset hl)
  · intro s hs
    have hrange : (program.numbered.map (·.id)).Pairwise (· < ·) := by
      rw [map_id_numbered]
      apply List.pairwise_lt_range
    apply hrange.sublist ((lines_sublist_of_mem_outline hs).map _)
  · intro k hk
    have hmem : k ∈ (sectionOrder (outline initial program.numbered)).map (·.id) := by
      rw [((sectionOrder_outline_perm initial program.numbered).map _).mem_iff, map_id_numbered]
      apply List.mem_range.mpr hk
    obtain ⟨l, hl, rfl⟩ := List.mem_map.mp hmem
    obtain ⟨s, hs, hl⟩ := List.mem_flatMap.mp hl
    obtain ⟨i, hi⟩ := List.mem_iff_getElem?.mp hs
    refine ⟨i, ⟨s, hi, List.mem_map_of_mem hl⟩, ?_⟩
    -- the last heading up to the line has one name, and only one section has that name
    rintro j ⟨t, hj, ht⟩
    obtain ⟨l', hl', hid⟩ := List.mem_map.mp ht
    have hname := name_eq_of_mem_outline hs hl
    have hname' := name_eq_of_mem_outline (List.mem_of_getElem? hj) hl'
    rw [hid, hname, Option.some_inj] at hname'
    have hget : ((outline initial program.numbered).map (·.name))[j]?
        = ((outline initial program.numbered).map (·.name))[i]? := by
      rw [List.getElem?_map, List.getElem?_map, hi, hj, Option.map_some, Option.map_some, hname']
    have hlt := (List.getElem?_eq_some_iff.mp hj).1
    rw [← List.length_map (·.name)] at hlt
    apply (List.getElem?_inj hlt hnodup).mp hget
  · intro s hs
    obtain ⟨h, -, rfl⟩ := List.mem_map.mp hs
    apply Section.faithful_ofLines

end

/-! ### Where a run stops -/

namespace Except

variable {ε α β : Type} {f : β → α → Except ε β}

/-- A run that fails goes well up to the step that fails. -/
theorem foldlM_eq_error_iff {xs : List α} {b : β} {e : ε} :
  xs.foldlM f b = .error e
    ↔ ∃ k x c, xs[k]? = some x ∧ (xs.take k).foldlM f b = .ok c ∧ f c x = .error e
  := by
  induction xs generalizing b with
  | nil => simp [pure, Except.pure]
  | cons x xs ih =>
      rw [List.foldlM_cons, bind_eq_error_iff]
      simp only [ih]
      constructor
      · rintro (h | ⟨c, hc, k, y, d, hy, hd, h⟩)
        · refine ⟨0, x, b, rfl, rfl, h⟩
        · refine ⟨k + 1, y, d, hy, ?_, h⟩
          rw [List.take_succ_cons, List.foldlM_cons, bind_eq_ok_iff]
          use c, hc, hd
      · rintro ⟨k, y, d, hy, hd, h⟩
        cases k with
        | zero =>
            cases hy
            cases hd
            apply Or.inl h
        | succ k =>
            rw [List.take_succ_cons, List.foldlM_cons, bind_eq_ok_iff] at hd
            obtain ⟨c, hc, hd⟩ := hd
            apply Or.inr ⟨c, hc, k, y, d, hy, hd, h⟩

/-- A run that goes well does so at every step. -/
theorem exists_step_of_foldlM_eq_ok {xs : List α} {b d : β} (h : xs.foldlM f b = .ok d) {k : Nat}
    {x : α} (hx : xs[k]? = some x) :
  ∃ c c', (xs.take k).foldlM f b = .ok c ∧ f c x = .ok c'
  := by
  obtain ⟨hk, rfl⟩ := List.getElem?_eq_some_iff.mp hx
  rw [← List.take_append_drop k xs, List.foldlM_append, bind_eq_ok_iff] at h
  obtain ⟨c, hc, h⟩ := h
  rw [List.drop_eq_getElem_cons hk, List.foldlM_cons, bind_eq_ok_iff] at h
  obtain ⟨c', hc', -⟩ := h
  use c, c', hc, hc'

end Except

/-! ### Faults -/

/-- A line that splitting reports, after the given headings: its label is not in the table or not
defined once, or else it opens a section that was opened with other flags. -/
inductive NumberedLine.SplitFault (symbols : SymbolTable) (before : List Heading)
    (l : NumberedLine) : AssemblyError → Prop
  | unknownSymbol {i : SymbolId} (hsymbol : l.line.symbol? = some i)
      (hget : symbols.get? i = none) :
    SplitFault symbols before l (.inconsistent (some l.id) .unknownSymbol)
  | multiplyDefined {i : SymbolId} {entry : SymbolEntry} (hsymbol : l.line.symbol? = some i)
      (hget : symbols.get? i = some entry) (hstate : entry.state ≠ .single) :
    SplitFault symbols before l (.multiplyDefined l.id entry.name)
  | flagConflict {h first : Heading}
      (hlabel : ∀ i ∈ l.line.symbol?, ∃ entry, symbols.get? i = some entry ∧ entry.state = .single)
      (hkind : l.line.kind = .opening h)
      (hfirst : before.find? (·.name = h.name) = some first) (hflags : first.flags ≠ h.flags) :
    SplitFault symbols before l (.flagConflict l.id h.name first.flags h.flags)

/-- A fault at a line of a program. -/
def Program.SplitFault (program : Program) (symbols : SymbolTable) (initial : Heading)
    (k : LineId) (e : AssemblyError) : Prop :=
  ∃ line, program[k]? = some line
    ∧ NumberedLine.SplitFault symbols (headings initial (program.numbered.take k)) ⟨k, line⟩ e

theorem checkLabel_eq_error_iff {symbols : SymbolTable} {l : NumberedLine} {e : AssemblyError} :
  Split.checkLabel symbols l = .error e
    ↔ ∃ i, l.line.symbol? = some i
      ∧ ((symbols.get? i = none ∧ e = .inconsistent (some l.id) .unknownSymbol)
        ∨ ∃ entry, symbols.get? i = some entry ∧ entry.state ≠ .single
          ∧ e = .multiplyDefined l.id entry.name)
  := by
  rw [Split.checkLabel]
  cases l.line.symbol? with
  | none => simp
  | some i =>
      cases he : symbols.get? i with
      | none => simp [he, eq_comm]
      | some entry =>
          by_cases h : entry.state = .single
          · simp [he, h, SymbolEntry.isSingle]
          · simp [he, h, SymbolEntry.isSingle, @eq_comm AssemblyError]

theorem enter_splitOf_eq_error_iff {hs : List Heading} {ls : List (String × NumberedLine)}
    {name : String} {l : NumberedLine} {e : AssemblyError} :
  (splitOf hs ls name).enter l = .error e
    ↔ ∃ h first, l.line.kind = .opening h ∧ hs.find? (·.name = h.name) = some first
      ∧ first.flags ≠ h.flags ∧ e = .flagConflict l.id h.name first.flags h.flags
  := by
  rw [Split.enter]
  split
  · next h hkind =>
    rw [hkind]
    simp only [LineKind.opening.injEq, exists_and_left, exists_eq_left',
      ← find?_zipIdx_sectionsOf hs ls]
    rw [find?_splitOf]
    cases (sectionsOf hs ls).zipIdx.find? (·.1.name == h.name) with
    | none => simp
    | some found =>
        by_cases hflags : found.1.flags = h.flags
        · simp [hflags]
        · simp [hflags, @eq_comm AssemblyError]
  · next hkind =>
    simp only [reduceCtorEq, false_iff]
    rintro ⟨h, -, hh, -⟩
    apply hkind h hh

theorem step_splitOf_eq_error_iff {symbols : SymbolTable} {hs : List Heading}
    {ls : List (String × NumberedLine)} {name : String} {l : NumberedLine} {e : AssemblyError} :
  (splitOf hs ls name).step symbols l = .error e ↔ l.SplitFault symbols hs e
  := by
  rw [Split.step, Except.bind_eq_error_iff, checkLabel_eq_error_iff]
  simp only [Except.bind_eq_error_iff, enter_splitOf_eq_error_iff]
  constructor
  · rintro (⟨i, hi, ⟨hget, rfl⟩ | ⟨entry, hget, hstate, rfl⟩⟩ | ⟨⟨⟩, hlabel, h | ⟨_, _, h⟩⟩)
    · apply NumberedLine.SplitFault.unknownSymbol hi hget
    · apply NumberedLine.SplitFault.multiplyDefined hi hget hstate
    · obtain ⟨h, first, hkind, hfirst, hflags, rfl⟩ := h
      apply NumberedLine.SplitFault.flagConflict _ hkind hfirst hflags
      simpa [SymbolEntry.isSingle] using checkLabel_eq_ok_iff.mp hlabel
    · cases h
  · intro h
    cases h with
    | unknownSymbol hi hget => apply Or.inl ⟨_, hi, .inl ⟨hget, rfl⟩⟩
    | multiplyDefined hi hget hstate => apply Or.inl ⟨_, hi, .inr ⟨_, hget, hstate, rfl⟩⟩
    | flagConflict hlabel hkind hfirst hflags =>
        refine .inr ⟨(), ?_, .inl ⟨_, _, hkind, hfirst, hflags, rfl⟩⟩
        apply checkLabel_eq_ok_iff.mpr
        simpa [SymbolEntry.isSingle] using hlabel

section

variable {program : Program} {symbols : SymbolTable} {initial : Heading}

/-- After the lines before it, a line fails with its faults. -/
theorem Program.step_eq_error_iff {k : LineId} {s : Split} {l : NumberedLine}
    (hk : program.numbered[k]? = some l)
    (hs : (program.numbered.take k).foldlM (Split.step symbols) (.start initial) = .ok s)
    {e : AssemblyError} :
  s.step symbols l = .error e ↔ program.SplitFault symbols initial k e
  := by
  obtain ⟨-, -, rfl⟩ := foldlM_step_eq_ok_iff.mp hs
  rw [getElem?_numbered] at hk
  obtain ⟨line, hline, rfl⟩ := Option.map_eq_some_iff.mp hk
  rw [step_splitOf_eq_error_iff, SplitFault]
  simp [hline]

theorem Program.exists_of_splitFault {k : LineId} {e : AssemblyError}
    (h : program.SplitFault symbols initial k e) :
  ∃ l, program.numbered[k]? = some l
  := by
  obtain ⟨line, hline, -⟩ := h
  use ⟨k, line⟩
  rw [getElem?_numbered, hline, Option.map_some]

theorem Program.not_splitFault_of_foldlM_eq_ok {n : Nat} {s : Split}
    (hs : (program.numbered.take n).foldlM (Split.step symbols) (.start initial) = .ok s)
    {k : LineId} (hk : k < n) {e : AssemblyError} :
  ¬ program.SplitFault symbols initial k e
  := by
  intro hfault
  obtain ⟨l, hget⟩ := exists_of_splitFault hfault
  have htake : (program.numbered.take n)[k]? = some l := by
    rw [List.getElem?_take_of_lt hk, hget]
  obtain ⟨c, c', hc, hstep⟩ := Except.exists_step_of_foldlM_eq_ok hs htake
  rw [List.take_take, Nat.min_eq_left hk.le] at hc
  rw [(step_eq_error_iff hget hc).mpr hfault] at hstep
  cases hstep

theorem Program.not_splitFault_of_split_eq_ok {split : SectionedProgram}
    (h : program.split symbols initial = .ok split) {k : LineId} {e : AssemblyError} :
  ¬ program.SplitFault symbols initial k e
  := by
  intro hfault
  obtain ⟨l, hl⟩ := exists_of_splitFault hfault
  have hk : k < program.numbered.length := (List.getElem?_eq_some_iff.mp hl).1
  rw [Program.split] at h
  obtain ⟨s, hs, -⟩ := Except.bind_eq_ok_iff.mp h
  rw [← List.take_length (l := program.numbered)] at hs
  apply not_splitFault_of_foldlM_eq_ok hs hk hfault

/-- Splitting fails with the fault of the first line that has one. -/
theorem Program.split_eq_error_iff {e : AssemblyError} :
  program.split symbols initial = .error e
    ↔ ∃ k, program.SplitFault symbols initial k e
      ∧ ∀ j < k, ∀ e', ¬ program.SplitFault symbols initial j e'
  := by
  have hrun : program.split symbols initial = .error e
      ↔ program.numbered.foldlM (Split.step symbols) (.start initial) = .error e := by
    rw [split, Except.bind_eq_error_iff]
    simp [pure, Except.pure]
  rw [hrun, Except.foldlM_eq_error_iff]
  constructor
  · rintro ⟨k, l, s, hk, hs, hstep⟩
    refine ⟨k, (step_eq_error_iff hk hs).mp hstep, ?_⟩
    intro j hj e'
    apply not_splitFault_of_foldlM_eq_ok hs hj
  · rintro ⟨k, hfault, hbefore⟩
    obtain ⟨l, hget⟩ := exists_of_splitFault hfault
    cases hs : (program.numbered.take k).foldlM (Split.step symbols) (.start initial) with
    | ok s => refine ⟨k, l, s, hget, hs, (step_eq_error_iff hget hs).mpr hfault⟩
    | error e' =>
        -- the run stopped at an earlier line, which has a fault then
        obtain ⟨j, l', c, hj, hc, hstep⟩ := Except.foldlM_eq_error_iff.mp hs
        rw [List.getElem?_take, Option.ite_none_right_eq_some] at hj
        obtain ⟨hlt, hj⟩ := hj
        rw [List.take_take, Nat.min_eq_left hlt.le] at hc
        cases hbefore j hlt e' ((step_eq_error_iff hj hc).mp hstep)

theorem Program.sections_eq_error_iff {e : AssemblyError} :
  program.sections symbols initial = .error e
    ↔ ∃ k, program.SplitFault symbols initial k e
      ∧ ∀ j < k, ∀ e', ¬ program.SplitFault symbols initial j e'
  := by
  rw [← split_eq_error_iff, sections, Except.bind_eq_error_iff]
  simp [pure, Except.pure]

end

/-! ### The law -/

/-- How a program is split: into parts, unless some line has a fault, and then the first such line
is reported. -/
structure Program.SplittingLaw (program : Program) (symbols : SymbolTable) (initial : Heading) :
    Prop where
  partitions : ∀ split, program.split symbols initial = .ok split →
    program.Partitions initial split.sections
  /-- The system calls are the operands that declare them. -/
  systemCalls : ∀ split, program.split symbols initial = .ok split →
    program.Collects LineKind.GivesSystemCall split.systemCalls
  /-- The devices are the operands that declare them. -/
  devices : ∀ split, program.split symbols initial = .ok split →
    program.Collects LineKind.GivesDevice split.devices
  fails_iff : (∃ e, program.split symbols initial = .error e)
    ↔ ∃ k e, program.SplitFault symbols initial k e
  error_iff : ∀ e, program.split symbols initial = .error e
    ↔ ∃ k, program.SplitFault symbols initial k e
      ∧ ∀ j < k, ∀ e', ¬ program.SplitFault symbols initial j e'

theorem Program.splittingLaw (program : Program) (symbols : SymbolTable) (initial : Heading) :
  program.SplittingLaw symbols initial
  := by
  refine
    { partitions := ?_
      systemCalls := ?_
      devices := ?_
      fails_iff := ?_
      error_iff := fun e => split_eq_error_iff }
  · intro split h
    obtain ⟨-, -, rfl⟩ := split_eq_ok_iff.mp h
    apply partitions_outline
  · intro split h
    obtain ⟨-, -, rfl⟩ := split_eq_ok_iff.mp h
    apply collects_systemCalls
  · intro split h
    obtain ⟨-, -, rfl⟩ := split_eq_ok_iff.mp h
    apply collects_devices
  · constructor
    · rintro ⟨e, h⟩
      obtain ⟨k, hfault, -⟩ := split_eq_error_iff.mp h
      apply Exists.intro k ⟨e, hfault⟩
    · rintro ⟨k, e, hfault⟩
      cases hsplit : program.split symbols initial with
      | error e' => use e'
      | ok split => cases not_splitFault_of_split_eq_ok hsplit hfault

/-- On one line the label is looked at before the flags. -/
example :
  Program.split
      [{ kind := .opening ⟨"data", { writable := true }⟩ },
        { kind := .opening ⟨"data", {}⟩, symbol? := some 0 }]
      { id := 0 } ⟨"main", {}⟩
    = .error (.inconsistent (some 1) .unknownSymbol)
  := rfl

end Pep10
