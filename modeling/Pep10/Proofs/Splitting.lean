import Pep10.Proofs.Layout.Schedule
import Mathlib.Data.List.Induction

/-!
# Outlines

What the sections of a program are, said without going through its lines one after the other.
There is one section for each name, with the heading that comes first for it, and its lines are
those under headings of that name.  Splitting a program succeeds when the headings of one name
agree and every label is defined once, and then it yields the outline, with all the system calls
and devices that the lines declare.
-/

namespace Pep10

/-! ### Headings -/

/-- The heading that a line opens a section with. -/
def NumberedLine.heading? (l : NumberedLine) : Option Heading :=
  match l.line.kind with
  | .opening h => some h
  | _ => none

/-- The headings of some lines, after the one that is there from the start. -/
def headings (initial : Heading) (lines : List NumberedLine) : List Heading :=
  initial :: lines.filterMap (·.heading?)

/-- Headings of one name have the same flags. -/
def Consistent (hs : List Heading) : Prop :=
  ∀ h ∈ hs, ∀ h' ∈ hs, h.name = h'.name → h.flags = h'.flags

/-- Headings are consistent when each has the flags of the first one of its name. -/
theorem consistent_iff_find? {hs : List Heading} :
  Consistent hs ↔ ∀ h ∈ hs, (hs.find? (·.name = h.name)).map (·.flags) = some h.flags
  := by
  constructor
  · intro hc h hh
    have hsome : (hs.find? (·.name = h.name)).isSome :=
      List.find?_isSome.mpr ⟨h, hh, decide_eq_true rfl⟩
    obtain ⟨first, hfirst⟩ := Option.isSome_iff_exists.mp hsome
    have hname : first.name = h.name := by simpa using List.find?_some hfirst
    rw [hfirst, Option.map_some, hc first (List.mem_of_find?_eq_some hfirst) h hh hname]
  · intro hfind h hh h' hh' hname
    apply Option.some_inj.mp
    rw [← hfind h hh, ← hfind h' hh', hname]

/-- Of the headings with one name, the first. -/
def firstOfEachName : List Heading → List Heading
  | [] => []
  | h :: hs => h :: (firstOfEachName hs).filter (·.name ≠ h.name)

theorem firstOfEachName_subset (hs : List Heading) :
  firstOfEachName hs ⊆ hs
  := by
  induction hs with
  | nil => simp [firstOfEachName]
  | cons h hs ih =>
      apply List.cons_subset_cons
      apply List.Subset.trans List.filter_sublist.subset ih

theorem name_mem_firstOfEachName {hs : List Heading} {name : String} :
  name ∈ (firstOfEachName hs).map (·.name) ↔ name ∈ hs.map (·.name)
  := by
  induction hs with
  | nil => rfl
  | cons h hs ih =>
      rw [firstOfEachName, List.map_cons, List.map_cons, List.mem_cons, List.mem_cons, ← ih]
      by_cases hname : name = h.name
      · simp [hname]
      · simp only [hname, false_or, List.mem_map, List.mem_filter, decide_eq_true_eq]
        constructor
        · rintro ⟨g, ⟨hg, -⟩, rfl⟩
          use g
        · rintro ⟨g, hg, rfl⟩
          use g, ⟨hg, hname⟩

theorem nodup_name_firstOfEachName (hs : List Heading) :
  ((firstOfEachName hs).map (·.name)).Nodup
  := by
  induction hs with
  | nil => simp [firstOfEachName]
  | cons h hs ih =>
      rw [firstOfEachName, List.map_cons, List.nodup_cons]
      constructor
      · simp
      · apply ih.sublist (List.filter_sublist.map _)

theorem firstOfEachName_concat_of_notMem {hs : List Heading} {h : Heading}
    (hnew : h.name ∉ hs.map (·.name)) :
  firstOfEachName (hs ++ [h]) = firstOfEachName hs ++ [h]
  := by
  induction hs with
  | nil => rfl
  | cons g hs ih =>
      rw [List.map_cons, List.mem_cons, not_or] at hnew
      rw [List.cons_append, firstOfEachName, firstOfEachName, ih hnew.2, List.filter_append,
        List.cons_append]
      simp [hnew.1]

theorem firstOfEachName_concat_of_mem {hs : List Heading} {h : Heading}
    (hold : h.name ∈ hs.map (·.name)) :
  firstOfEachName (hs ++ [h]) = firstOfEachName hs
  := by
  induction hs with
  | nil => simp at hold
  | cons g hs ih =>
      rw [List.cons_append, firstOfEachName, firstOfEachName]
      by_cases hmem : h.name ∈ hs.map (·.name)
      · rw [ih hmem]
      · have hg : h.name = g.name := by
          rw [List.map_cons, List.mem_cons] at hold
          apply hold.resolve_right hmem
        rw [firstOfEachName_concat_of_notMem hmem, List.filter_append]
        simp [hg]

/-! ### Lines under headings -/

/-- The name of the open section after a line, when the one before it has the given name. -/
def NumberedLine.nameAfter (l : NumberedLine) (name : String) : String :=
  (l.heading?.map (·.name)).getD name

/-- Lines with the names of their sections. -/
def named (name : String) : List NumberedLine → List (String × NumberedLine)
  | [] => []
  | l :: lines => (l.nameAfter name, l) :: named (l.nameAfter name) lines

/-- The name of the section that is open after some lines. -/
def openName (name : String) (lines : List NumberedLine) : String :=
  lines.foldl (fun name l => l.nameAfter name) name

theorem named_concat (name : String) (lines : List NumberedLine) (l : NumberedLine) :
  named name (lines ++ [l]) = named name lines ++ [(l.nameAfter (openName name lines), l)]
  := by
  induction lines generalizing name with
  | nil => rfl
  | cons k lines ih =>
      rw [List.cons_append, named, named, ih, List.cons_append]
      rfl

theorem openName_concat (name : String) (lines : List NumberedLine) (l : NumberedLine) :
  openName name (lines ++ [l]) = l.nameAfter (openName name lines)
  := by
  rw [openName, List.foldl_append]
  rfl

theorem filterMap_concat {α β : Type} (f : α → Option β) (xs : List α) (x : α) :
  (xs ++ [x]).filterMap f = xs.filterMap f ++ (f x).toList
  := by
  rw [List.filterMap_append]
  cases h : f x with
  | none => simp [h]
  | some y => simp [h]

theorem headings_concat (initial : Heading) (lines : List NumberedLine) (l : NumberedLine) :
  headings initial (lines ++ [l]) = headings initial lines ++ l.heading?.toList
  := by
  rw [headings, filterMap_concat, headings, List.cons_append]

theorem map_snd_named (name : String) (lines : List NumberedLine) :
  (named name lines).map (·.2) = lines
  := by
  induction lines generalizing name with
  | nil => rfl
  | cons l lines ih => rw [named, List.map_cons, ih]

theorem name_mem_of_named {lines : List NumberedLine} :
    ∀ {name : String}, ∀ x ∈ named name lines,
      x.1 = name ∨ x.1 ∈ (lines.filterMap (·.heading?)).map (·.name)
  := by
  induction lines with
  | nil => simp [named]
  | cons l lines ih =>
      intro name x hx
      have hafter : l.nameAfter name = name
          ∨ l.nameAfter name ∈ ((l :: lines).filterMap (·.heading?)).map (·.name) := by
        cases h : l.heading? with
        | none => simp [NumberedLine.nameAfter, h]
        | some g => simp [NumberedLine.nameAfter, h]
      have hsub : lines.filterMap (·.heading?) ⊆ (l :: lines).filterMap (·.heading?) :=
        ((List.sublist_cons_self l lines).filterMap _).subset
      obtain rfl | hx := List.mem_cons.mp hx
      · apply hafter
      · obtain heq | hmem := ih x hx
        · rw [heq]
          apply hafter
        · right
          apply List.map_subset _ hsub hmem

/-- A line stands under one of the headings. -/
theorem name_mem_headings {initial : Heading} {lines : List NumberedLine}
    {x : String × NumberedLine} (hx : x ∈ named initial.name lines) :
  x.1 ∈ (headings initial lines).map (·.name)
  := by
  rw [headings, List.map_cons, List.mem_cons]
  apply name_mem_of_named x hx

/-! ### The outline of a program -/

namespace Section

variable (s : Section) (kind : LineKind) (h : Heading) (lines : List NumberedLine)
  (l : NumberedLine)

@[simp]
theorem toHeading_note :
  (s.note kind).toHeading = s.toHeading
  := by
  fun_cases note s kind with
  | case1 => rfl
  | case2 => rfl
  | case3 => rfl

@[simp]
theorem bounds_note :
  (s.note kind).bounds = s.bounds
  := by
  fun_cases note s kind with
  | case1 => rfl
  | case2 => rfl
  | case3 => rfl

@[simp]
theorem lines_note :
  (s.note kind).lines = s.lines
  := by
  fun_cases note s kind with
  | case1 => rfl
  | case2 => rfl
  | case3 => rfl

/-- The section with given lines, each noted when it comes. -/
def ofLines : Section :=
  lines.foldl (fun s l => (s.note l.line.kind).push l) { toHeading := h }

theorem ofLines_concat :
  ofLines h (lines ++ [l]) = ((ofLines h lines).note l.line.kind).push l
  := by
  rw [ofLines, List.foldl_append]
  rfl

@[simp]
theorem toHeading_ofLines :
  (ofLines h lines).toHeading = h
  := by
  induction lines using List.reverseRecOn with
  | nil => rfl
  | append_singleton lines l ih =>
      rw [ofLines_concat]
      apply (toHeading_note _ _).trans ih

@[simp]
theorem bounds_ofLines :
  (ofLines h lines).bounds = {}
  := by
  induction lines using List.reverseRecOn with
  | nil => rfl
  | append_singleton lines l ih =>
      rw [ofLines_concat]
      apply (bounds_note _ _).trans ih

@[simp]
theorem lines_ofLines :
  (ofLines h lines).lines = lines
  := by
  induction lines using List.reverseRecOn with
  | nil => rfl
  | append_singleton lines l ih => rw [ofLines_concat, push, lines_note, ih]

end Section

/-- The sections with given headings and lines. -/
def sectionsOf (hs : List Heading) (ls : List (String × NumberedLine)) : List Section :=
  (firstOfEachName hs).map fun h => .ofLines h ((ls.filter (·.1 = h.name)).map (·.2))

/-- The sections of some lines. -/
def outline (initial : Heading) (lines : List NumberedLine) : List Section :=
  sectionsOf (headings initial lines) (named initial.name lines)

/-- The section of the given name is open among the sections with given headings and lines. -/
def splitOf (hs : List Heading) (ls : List (String × NumberedLine)) (name : String) : Split where
  sections := sectionsOf hs ls
  systemCalls := ls.filterMap (·.2.line.kind.systemCall?)
  devices := ls.filterMap (·.2.line.kind.device?)
  positions := ((firstOfEachName hs).map (·.name)).zipIdx
  active := (firstOfEachName hs).findIdx (·.name == name)

theorem modify_findIdx {α : Type} (key : α → String) (name : String) (f : α → α) {xs : List α}
    (hnodup : (xs.map key).Nodup) :
  xs.modify (xs.findIdx (key · == name)) f = xs.map fun x => if key x = name then f x else x
  := by
  induction xs with
  | nil => rfl
  | cons x xs ih =>
      rw [List.map_cons, List.nodup_cons] at hnodup
      rw [List.findIdx_cons, List.map_cons]
      by_cases hx : key x = name
      · -- the other keys differ from that of `x`
        have hrest : xs.map (fun y => if key y = name then f y else y) = xs := by
          conv_rhs => rw [← List.map_id xs]
          apply List.map_congr_left
          intro y hy
          rw [if_neg]
          · rfl
          · rintro rfl
            apply hnodup.1
            rw [hx]
            apply List.mem_map_of_mem hy
        simp [hx, hrest]
      · have hbeq : (key x == name) = false := by simpa using hx
        rw [hbeq, cond_false, List.modify_succ_cons, ih hnodup.2, if_neg hx]

theorem map_toHeading_sectionsOf (hs : List Heading) (ls : List (String × NumberedLine)) :
  (sectionsOf hs ls).map (·.toHeading) = firstOfEachName hs
  := by
  simp [sectionsOf, Function.comp_def]

theorem map_name_sectionsOf (hs : List Heading) (ls : List (String × NumberedLine)) :
  (sectionsOf hs ls).map (·.name) = (firstOfEachName hs).map (·.name)
  := by
  rw [← map_toHeading_sectionsOf hs ls, List.map_map]
  rfl

theorem findIdx_sectionsOf (hs : List Heading) (ls : List (String × NumberedLine))
    (name : String) :
  (sectionsOf hs ls).findIdx (·.name == name) = (firstOfEachName hs).findIdx (·.name == name)
  := by
  rw [← map_toHeading_sectionsOf hs ls, List.findIdx_map]
  rfl

/-- Noting a line and putting it in the open section gives the section one more line. -/
theorem modify_sectionsOf (hs : List Heading) (ls : List (String × NumberedLine)) (name : String)
    (l : NumberedLine) :
  (sectionsOf hs ls).modify ((firstOfEachName hs).findIdx (·.name == name))
      (fun s => (s.note l.line.kind).push l)
    = sectionsOf hs (ls ++ [(name, l)])
  := by
  rw [← findIdx_sectionsOf hs ls, modify_findIdx (fun s : Section => s.name)]
  · rw [sectionsOf, List.map_map, sectionsOf]
    apply List.map_congr_left
    intro h _
    by_cases hname : h.name = name
    · simp [hname, List.filter_append, Section.ofLines_concat]
    · simp [hname, List.filter_append, Ne.symm hname]
  · rw [map_name_sectionsOf]
    apply nodup_name_firstOfEachName

theorem push_note_splitOf (hs : List Heading) (ls : List (String × NumberedLine)) (name : String)
    (l : NumberedLine) :
  ((splitOf hs ls name).note l.line.kind).modifyActive (·.push l)
    = splitOf hs (ls ++ [(name, l)]) name
  := by
  have hsections := modify_sectionsOf hs ls name l
  simp only [Split.note, Split.modifyActive, splitOf, List.modify_modify_eq, Function.comp_def,
    hsections, filterMap_concat]

theorem consistent_concat_iff {hs : List Heading} {h : Heading} :
  Consistent (hs ++ [h])
    ↔ Consistent hs ∧ ∀ h' ∈ hs, h'.name = h.name → h'.flags = h.flags
  := by
  simp only [Consistent, List.mem_append, List.mem_singleton]
  constructor
  · intro hc
    constructor
    · intro g hg g' hg' heq
      apply hc g (.inl hg) g' (.inl hg') heq
    · intro g hg heq
      apply hc g (.inl hg) h (.inr rfl) heq
  · rintro ⟨hc, hnew⟩ g (hg | rfl) g' (hg' | rfl) heq
    · apply hc g hg g' hg' heq
    · apply hnew g hg heq
    · apply (hnew g' hg' heq.symm).symm
    · rfl

theorem Split.enter_of_heading?_eq_none {l : NumberedLine} (h : l.heading? = none) (s : Split) :
  s.enter l = .ok s
  := by
  rw [NumberedLine.heading?] at h
  rw [enter]
  split
  · next hkind => simp [hkind] at h
  · rfl

theorem NumberedLine.kind_of_heading? {l : NumberedLine} {h : Heading} (hl : l.heading? = some h) :
  l.line.kind = .opening h
  := by
  rw [heading?] at hl
  split at hl
  · next hkind =>
    cases hl
    apply hkind
  · cases hl

/-- The index of the names leads to the section of a name. -/
theorem find?_splitOf (hs : List Heading) (ls : List (String × NumberedLine))
    (name sought : String) :
  (splitOf hs ls name).find? sought = (sectionsOf hs ls).zipIdx.find? (·.1.name == sought)
  := by
  have hposition : (splitOf hs ls name).positions.find? (·.1 == sought)
      = ((sectionsOf hs ls).zipIdx.find? (·.1.name == sought)).map (Prod.map (·.name) id) := by
    rw [splitOf, ← map_name_sectionsOf hs ls, List.zipIdx_map, List.find?_map]
    rfl
  rw [Split.find?, hposition]
  cases hfind : (sectionsOf hs ls).zipIdx.find? (·.1.name == sought) with
  | none => rfl
  | some found =>
      have hget := List.mem_zipIdx_iff_getElem?.mp (List.mem_of_find?_eq_some hfind)
      have hsections : (splitOf hs ls name).sections[found.2]? = some found.1 := hget
      simp [hsections]

/-- A section found by its name has one of the headings. -/
theorem find?_sectionsOf {hs : List Heading} {ls : List (String × NumberedLine)} {name : String}
    {s : Section} {i : Nat} (h : (sectionsOf hs ls).zipIdx.find? (·.1.name == name) = some (s, i)) :
  s.toHeading ∈ hs ∧ s.name = name ∧ i = (firstOfEachName hs).findIdx (·.name == name)
  := by
  refine ⟨?_, ?_, ?_⟩
  · have hmem := List.fst_mem_of_mem_zipIdx (List.mem_of_find?_eq_some h)
    apply firstOfEachName_subset hs
    rw [← map_toHeading_sectionsOf hs ls]
    apply List.mem_map_of_mem hmem
  · simpa using List.find?_some h
  · have hidx : (sectionsOf hs ls).findIdx? (·.name == name) = some i := by
      rw [List.findIdx?_eq_fst_find?_zipIdx, h]
      rfl
    rw [List.findIdx?_eq_some_iff_findIdx_eq, findIdx_sectionsOf] at hidx
    apply hidx.2.symm

theorem notMem_of_find?_sectionsOf {hs : List Heading} {ls : List (String × NumberedLine)}
    {name : String} (h : (sectionsOf hs ls).zipIdx.find? (·.1.name == name) = none) :
  name ∉ hs.map (·.name)
  := by
  rw [← name_mem_firstOfEachName, ← map_name_sectionsOf hs ls]
  intro hmem
  obtain ⟨s, hs, rfl⟩ := List.mem_map.mp hmem
  obtain ⟨i, hi⟩ := List.mem_iff_getElem?.mp hs
  have := List.find?_eq_none.mp h (s, i) (List.mem_zipIdx_iff_getElem?.mpr hi)
  simp at this

theorem splitOf_concat_of_mem {hs : List Heading} {h : Heading}
    (hold : h.name ∈ hs.map (·.name)) (ls : List (String × NumberedLine)) (name : String) :
  splitOf (hs ++ [h]) ls name = splitOf hs ls name
  := by
  rw [splitOf, splitOf, sectionsOf, sectionsOf, firstOfEachName_concat_of_mem hold]

theorem splitOf_concat_of_notMem {hs : List Heading} {h : Heading}
    {ls : List (String × NumberedLine)} (hnew : h.name ∉ hs.map (·.name))
    (hls : ∀ x ∈ ls, x.1 ∈ hs.map (·.name)) :
  splitOf (hs ++ [h]) ls h.name
    = { splitOf hs ls h.name with
        sections := sectionsOf hs ls ++ [{ toHeading := h }]
        positions := (splitOf hs ls h.name).positions ++ [(h.name, (sectionsOf hs ls).length)]
        active := (sectionsOf hs ls).length }
  := by
  have hlines : ls.filter (·.1 = h.name) = [] := by
    rw [List.filter_eq_nil_iff]
    intro x hx
    rw [decide_eq_true_eq]
    rintro heq
    apply hnew
    rw [← heq]
    apply hls x hx
  have hidx : (firstOfEachName hs ++ [h]).findIdx (·.name == h.name)
      = (firstOfEachName hs).length := by
    have hnone : (firstOfEachName hs).findIdx (·.name == h.name)
        = (firstOfEachName hs).length := by
      rw [List.findIdx_eq_length]
      intro g hg
      rw [beq_eq_false_iff_ne]
      intro heq
      apply hnew
      rw [← heq]
      apply List.mem_map_of_mem (firstOfEachName_subset hs hg)
    rw [List.findIdx_append, hnone]
    simp
  have hlength : (sectionsOf hs ls).length = (firstOfEachName hs).length := List.length_map _
  simp only [splitOf, firstOfEachName_concat_of_notMem hnew, hidx, hlength, List.map_append,
    List.map_singleton, List.zipIdx_append, List.length_map]
  rw [sectionsOf, firstOfEachName_concat_of_notMem hnew, List.map_append, List.map_singleton,
    hlines]
  simp [sectionsOf, Section.ofLines]

theorem checkLabel_eq_ok_iff {t : SymbolTable} {l : NumberedLine} :
  Split.checkLabel t l = .ok ()
    ↔ ∀ i ∈ l.line.symbol?, ∃ e, t.get? i = some e ∧ e.isSingle
  := by
  rw [Split.checkLabel]
  cases l.line.symbol? with
  | none => simp
  | some i =>
      cases he : t.get? i with
      | none => simp [he]
      | some e =>
          by_cases h : e.isSingle
          · simp [he, h]
          · simp [he, h]

/-- Opening a section succeeds when its heading agrees with the earlier ones. -/
theorem enter_splitOf_eq_ok_iff {hs : List Heading} {ls : List (String × NumberedLine)}
    {name : String} {l : NumberedLine} {s : Split} (hc : Consistent hs)
    (hls : ∀ x ∈ ls, x.1 ∈ hs.map (·.name)) :
  (splitOf hs ls name).enter l = .ok s
    ↔ Consistent (hs ++ l.heading?.toList)
      ∧ s = splitOf (hs ++ l.heading?.toList) ls (l.nameAfter name)
  := by
  cases hl : l.heading? with
  | none =>
      rw [Split.enter_of_heading?_eq_none hl]
      simp [NumberedLine.nameAfter, hl, hc, eq_comm]
  | some h =>
      rw [Split.enter, NumberedLine.kind_of_heading? hl, NumberedLine.nameAfter, hl,
        Option.toList_some, consistent_concat_iff]
      simp only [Option.map_some, Option.getD_some, hc, true_and, find?_splitOf]
      split
      · next known i hfind =>
        obtain ⟨hmem, hname, rfl⟩ := find?_sectionsOf hfind
        have hold : h.name ∈ hs.map (·.name) := List.mem_map.mpr ⟨_, hmem, hname⟩
        have hagree : known.flags = h.flags
            ↔ ∀ h' ∈ hs, h'.name = h.name → h'.flags = h.flags := by
          constructor
          · intro hflags h' hh' heq
            rw [← hflags]
            apply hc h' hh' known.toHeading hmem (heq.trans hname.symm)
          · intro hall
            apply hall known.toHeading hmem hname
        rw [splitOf_concat_of_mem hold, ← hagree]
        split
        · next hflags => simp [hflags, splitOf, eq_comm]
        · next hflags => simp [hflags]
      · next hfind =>
        have hnew := notMem_of_find?_sectionsOf hfind
        rw [splitOf_concat_of_notMem hnew hls]
        have hvacuous : ∀ h' ∈ hs, h'.name = h.name → h'.flags = h.flags := by
          intro h' hh' heq
          cases hnew (List.mem_map.mpr ⟨h', hh', heq⟩)
        rw [and_iff_right hvacuous, Except.ok.injEq]
        apply eq_comm

theorem step_splitOf_eq_ok_iff {symbols : SymbolTable} {hs : List Heading}
    {ls : List (String × NumberedLine)} {name : String} {l : NumberedLine} {s : Split}
    (hc : Consistent hs) (hls : ∀ x ∈ ls, x.1 ∈ hs.map (·.name)) :
  (splitOf hs ls name).step symbols l = .ok s
    ↔ Split.checkLabel symbols l = .ok () ∧ Consistent (hs ++ l.heading?.toList)
      ∧ s = splitOf (hs ++ l.heading?.toList) (ls ++ [(l.nameAfter name, l)]) (l.nameAfter name)
  := by
  rw [Split.step, Except.bind_eq_ok_iff]
  simp only [Except.bind_eq_ok_iff, enter_splitOf_eq_ok_iff hc hls, and_assoc, exists_and_left,
    exists_eq_left, push_note_splitOf, pure, Except.pure, Except.ok.injEq]
  constructor
  · rintro ⟨⟨⟩, hlabel, hc', rfl⟩
    use hlabel, hc'
  · rintro ⟨hlabel, hc', rfl⟩
    use (), hlabel, hc'

/-- Splitting lines succeeds when the labels are defined once and the headings agree. -/
theorem foldlM_step_eq_ok_iff {symbols : SymbolTable} {initial : Heading}
    {lines : List NumberedLine} {s : Split} :
  lines.foldlM (Split.step symbols) (.start initial) = .ok s
    ↔ (∀ l ∈ lines, Split.checkLabel symbols l = .ok ()) ∧ Consistent (headings initial lines)
      ∧ s = splitOf (headings initial lines) (named initial.name lines)
        (openName initial.name lines)
  := by
  induction lines using List.reverseRecOn generalizing s with
  | nil => simp [pure, Except.pure, Consistent, headings, Split.start, splitOf, sectionsOf,
      Section.ofLines, firstOfEachName, named, openName, eq_comm]
  | append_singleton lines l ih =>
      rw [List.foldlM_append, Except.bind_eq_ok_iff]
      simp only [ih, List.foldlM_cons, List.foldlM_nil, bind_pure, List.forall_mem_append,
        List.forall_mem_singleton, headings_concat, named_concat, openName_concat]
      constructor
      · rintro ⟨r, ⟨hlabels, hc, rfl⟩, hstep⟩
        rw [step_splitOf_eq_ok_iff hc fun x => name_mem_headings] at hstep
        use ⟨hlabels, hstep.1⟩, hstep.2.1, hstep.2.2
      · rintro ⟨⟨hlabels, hlabel⟩, hc, rfl⟩
        have hc' : Consistent (headings initial lines) := by
          intro h hh h' hh'
          apply hc h (List.mem_append_left _ hh) h' (List.mem_append_left _ hh')
        refine ⟨_, ⟨hlabels, hc', rfl⟩, ?_⟩
        rw [step_splitOf_eq_ok_iff hc' fun x => name_mem_headings]
        use hlabel, hc

theorem Program.map_line_numbered (program : Program) :
  program.numbered.map (·.line) = program
  := by
  rw [numbered, List.map_map]
  apply List.zipIdx_map_fst

theorem Program.filterMap_named {α : Type} (program : Program) (name : String)
    (f : LineKind → Option α) :
  (named name program.numbered).filterMap (fun x => f x.2.line.kind)
    = program.filterMap fun line => f line.kind
  := by
  conv_rhs => rw [← program.map_line_numbered, ← map_snd_named name program.numbered]
  rw [List.filterMap_map, List.filterMap_map]
  rfl

/-- A program is split into its outline, with what its lines declare. -/
theorem Program.split_eq_ok_iff {program : Program} {symbols : SymbolTable} {initial : Heading}
    {split : SectionedProgram} :
  program.split symbols initial = .ok split
    ↔ (∀ l ∈ program.numbered, Split.checkLabel symbols l = .ok ())
      ∧ Consistent (headings initial program.numbered)
      ∧ split = ⟨outline initial program.numbered, program.systemCalls, program.devices⟩
  := by
  rw [Program.split, Except.bind_eq_ok_iff]
  simp only [foldlM_step_eq_ok_iff, and_assoc, exists_and_left, exists_eq_left, splitOf,
    filterMap_named, pure, Except.pure, Except.ok.injEq]
  rw [eq_comm (b := split)]
  rfl

/-- The sections of a program are its outline. -/
theorem Program.sections_eq_ok_iff {program : Program} {symbols : SymbolTable}
    {initial : Heading} {sections : List Section} :
  program.sections symbols initial = .ok sections
    ↔ (∀ l ∈ program.numbered, Split.checkLabel symbols l = .ok ())
      ∧ Consistent (headings initial program.numbered)
      ∧ sections = outline initial program.numbered
  := by
  rw [Program.sections, Except.bind_eq_ok_iff]
  simp only [split_eq_ok_iff, and_assoc, exists_and_left, exists_eq_left]
  simp [pure, Except.pure, eq_comm]

/-- The sections of a program say all about its split. -/
theorem Program.split_eq (program : Program) (symbols : SymbolTable) (initial : Heading) :
  program.split symbols initial
    = (program.sections symbols initial).map (⟨·, program.systemCalls, program.devices⟩)
  := by
  rw [Program.sections]
  cases h : program.split symbols initial with
  | error e => rfl
  | ok split =>
      obtain ⟨-, -, rfl⟩ := split_eq_ok_iff.mp h
      rfl

theorem outline_ne_nil (initial : Heading) (lines : List NumberedLine) :
  outline initial lines ≠ []
  := by
  simp [outline, sectionsOf, headings, firstOfEachName]

theorem Program.sections_ne_nil {program : Program} {symbols : SymbolTable} {initial : Heading}
    {sections : List Section} (h : program.sections symbols initial = .ok sections) :
  sections ≠ []
  := by
  obtain ⟨-, -, rfl⟩ := sections_eq_ok_iff.mp h
  apply outline_ne_nil

/-! ### Every line in one section -/

/-- Grouping by the names that occur loses nothing. -/
theorem flatMap_filter_perm {names : List String} :
    ∀ {ls : List (String × NumberedLine)}, names.Nodup → (∀ x ∈ ls, x.1 ∈ names) →
      (names.flatMap fun name => ls.filter (·.1 = name)).Perm ls
  := by
  induction names with
  | nil =>
      intro ls _ hls
      cases ls with
      | nil => rfl
      | cons x ls => apply absurd (hls x List.mem_cons_self) List.not_mem_nil
  | cons name names ih =>
      intro ls hnodup hls
      rw [List.nodup_cons] at hnodup
      have hrest : (names.flatMap fun n => ls.filter (·.1 = n))
          = names.flatMap fun n => (ls.filter (¬ ·.1 = name)).filter (·.1 = n) := by
        apply List.flatMap_congr
        intro n hn
        rw [List.filter_filter]
        apply List.filter_congr
        intro x _
        have hne : n ≠ name := by
          rintro rfl
          apply hnodup.1 hn
        by_cases hx : x.1 = n
        · simp [hx, hne]
        · simp [hx]
      rw [List.flatMap_cons, hrest]
      have hothers : ∀ x ∈ ls.filter (¬ ·.1 = name), x.1 ∈ names := by
        intro x hx
        simp only [List.mem_filter, decide_eq_true_eq] at hx
        apply (List.mem_cons.mp (hls x hx.1)).resolve_left hx.2
      apply ((ih hnodup.2 hothers).append_left _).trans
      have := List.filter_append_perm (fun x : String × NumberedLine => decide (x.1 = name)) ls
      simpa using this

/-- The section order reorders the lines of a program. -/
theorem sectionOrder_outline_perm (initial : Heading) (lines : List NumberedLine) :
  (sectionOrder (outline initial lines)).Perm lines
  := by
  have hnames : ∀ x ∈ named initial.name lines,
      x.1 ∈ (firstOfEachName (headings initial lines)).map (·.name) := by
    intro x hx
    rw [name_mem_firstOfEachName]
    apply name_mem_headings hx
  have hperm := (flatMap_filter_perm (nodup_name_firstOfEachName _) hnames).map (·.2)
  rw [map_snd_named] at hperm
  apply List.Perm.trans _ hperm
  simp only [sectionOrder, outline, sectionsOf, List.flatMap_map, List.map_flatMap,
    Section.lines_ofLines]
  rfl

/-- The sections of a program hold its lines. -/
theorem Program.sectionOrder_perm {program : Program} {symbols : SymbolTable}
    {initial : Heading} {sections : List Section}
    (h : program.sections symbols initial = .ok sections) :
  (sectionOrder sections).Perm program.numbered
  := by
  obtain ⟨-, -, rfl⟩ := Program.sections_eq_ok_iff.mp h
  apply sectionOrder_outline_perm

theorem Program.map_id_numbered (program : Program) :
  program.numbered.map (·.id) = List.range program.length
  := by
  rw [numbered, List.map_map, List.range_eq_range']
  apply List.zipIdx_map_snd

theorem Program.id_lt_of_mem_numbered {program : Program} {l : NumberedLine}
    (h : l ∈ program.numbered) :
  l.id < program.length
  := by
  rw [← List.mem_range, ← Program.map_id_numbered]
  apply List.mem_map_of_mem h

theorem Program.getElem?_of_mem_numbered {program : Program} {l : NumberedLine}
    (h : l ∈ program.numbered) :
  program[l.id]? = some l.line
  := by
  obtain ⟨⟨line, i⟩, hmem, rfl⟩ := List.mem_map.mp h
  apply List.mem_zipIdx_iff_getElem?.mp hmem

/-- The sections of a program are made of their headings and lines. -/
theorem Program.eq_ofLines {program : Program} {symbols : SymbolTable} {initial : Heading}
    {sections : List Section} (h : program.sections symbols initial = .ok sections) {s : Section}
    (hs : s ∈ sections) :
  s = .ofLines s.toHeading s.lines
  := by
  obtain ⟨-, -, rfl⟩ := Program.sections_eq_ok_iff.mp h
  obtain ⟨heading, -, rfl⟩ := List.mem_map.mp hs
  rw [Section.toHeading_ofLines, Section.lines_ofLines]

theorem lines_sublist_of_mem_outline {initial : Heading} {lines : List NumberedLine} {s : Section}
    (hs : s ∈ outline initial lines) :
  s.lines.Sublist lines
  := by
  obtain ⟨heading, -, rfl⟩ := List.mem_map.mp hs
  rw [Section.lines_ofLines]
  conv_rhs => rw [← map_snd_named initial.name lines]
  apply List.filter_sublist.map

/-- The lines of a section stand in the order of the program. -/
theorem Program.lines_sublist_numbered {program : Program} {symbols : SymbolTable}
    {initial : Heading} {sections : List Section}
    (h : program.sections symbols initial = .ok sections) {s : Section} (hs : s ∈ sections) :
  s.lines.Sublist program.numbered
  := by
  obtain ⟨-, -, rfl⟩ := Program.sections_eq_ok_iff.mp h
  apply lines_sublist_of_mem_outline hs

end Pep10
