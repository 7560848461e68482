import Pep10.Segment
import Pep10.Proofs.Layout.Bounds
import Pep10.Proofs.ObjectCode
import Mathlib.Data.List.Chain

/-!
# Segments

The segments of an assembled program cut its sections with bytes into runs.  The sections of a run
are all zeroed, or none is and they allow the same accesses, and the runs are as long as they can
be.  A segment has the sizes of its sections together and begins where the first of them begins in
memory.

Sections are left out when they take no addresses, and they join a segment by its number of bytes
in the output.  Both tests come down to what is said here because a layout never leaves a distance
between the bounds of a section without bytes.
-/

namespace Pep10

/-! ### Accesses -/

namespace Flags

/-- Flags that allow the same accesses. -/
structure Alike (f g : Flags) : Prop where
  readable_eq : f.readable = g.readable
  writable_eq : f.writable = g.writable
  executable_eq : f.executable = g.executable

variable {f g h : Flags}

theorem samePermissions_iff :
  f.samePermissions g ↔ f.Alike g
  := by
  simp only [samePermissions, Bool.and_eq_true, decide_eq_true_eq]
  constructor
  · rintro ⟨⟨hreadable, hwritable⟩, hexecutable⟩
    exact ⟨hreadable, hwritable, hexecutable⟩
  · rintro ⟨hreadable, hwritable, hexecutable⟩
    exact ⟨⟨hreadable, hwritable⟩, hexecutable⟩

theorem Alike.refl (f : Flags) :
  f.Alike f
  := ⟨rfl, rfl, rfl⟩

end Flags

/-! ### One segment -/

namespace Segment

/-- A segment of sections with bytes. -/
structure Gathers (g : Segment) (members : List Section) : Prop where
  byteCount_pos : ∀ s ∈ members, 0 < s.bounds.byteCount
  isZeroed_eq : ∀ s ∈ members, s.isZeroed = g.isZeroed
  /-- Stored sections allow the same accesses. -/
  alike : g.isZeroed = false → ∀ s ∈ members, g.flags.Alike s.flags
  fileSize_eq : g.fileSize = ((members.filter (!·.isZeroed)).map (·.bounds.byteCount)).sum
  memorySize_eq : g.memorySize = (members.map (·.bounds.byteCount)).sum
  isLeast_base : IsLeast {b | ∃ s ∈ members, s.bounds.base = b} g.base

variable {g : Segment} {members : List Section} {s : Section}

theorem sum_stored_singleton (s : Section) :
  (([s].filter (!·.isZeroed)).map (·.bounds.byteCount)).sum = s.storedSize
  := by
  cases hs : s.isZeroed with
  | true => simp [Section.storedSize, hs]
  | false => simp [Section.storedSize, hs]

theorem gathers_single (index : Nat) (hs : 0 < s.bounds.byteCount) :
  (single index s).Gathers [s]
  where
  byteCount_pos := by simpa using hs
  isZeroed_eq := by simp [single]
  alike := by simp [single, Flags.Alike.refl]
  fileSize_eq := (sum_stored_singleton s).symm
  memorySize_eq := by simp [single]
  isLeast_base := by simp [single, IsLeast, lowerBounds]

/-- A segment has no bytes in the output when its sections are zeroed. -/
theorem Gathers.fileSize_eq_zero_iff (h : g.Gathers members) :
  g.fileSize = 0 ↔ g.isZeroed
  := by
  obtain ⟨s, hs, -⟩ := h.isLeast_base.1
  have hpos := h.byteCount_pos s hs
  rw [h.fileSize_eq, List.sum_eq_zero_iff_forall_eq_nat, List.forall_mem_map]
  constructor
  · intro hzero
    by_contra hg
    have hmem : s ∈ members.filter (!·.isZeroed) := by
      simpa [hs, h.isZeroed_eq s hs] using hg
    have := hzero s hmem
    omega
  · intro hg s' hs'
    obtain ⟨hmem, hstored⟩ := List.mem_filter.mp hs'
    rw [h.isZeroed_eq s' hmem, hg] at hstored
    cases hstored

/-- The test whether a section can join a segment. -/
theorem Gathers.admits_iff (h : g.Gathers members) :
  g.admits s
    ↔ s.isZeroed = g.isZeroed ∧ (g.isZeroed = false → g.flags.Alike s.flags)
  := by
  have hzero := h.fileSize_eq_zero_iff
  rw [admits, ← Flags.samePermissions_iff]
  cases hs : s.isZeroed with
  | true =>
      cases hg : g.isZeroed with
      | true => simp [hzero.mpr hg]
      | false =>
          rw [hg] at hzero
          simpa using hzero
  | false =>
      cases hg : g.isZeroed with
      | true => simp [hzero.mpr hg]
      | false =>
          rw [hg] at hzero
          have hne : g.fileSize ≠ 0 := by simpa using hzero
          simp [hne]

theorem Gathers.join (h : g.Gathers members) (hs : 0 < s.bounds.byteCount) (hadmits : g.admits s)
    (index : Nat) :
  (g.join index s).Gathers (members ++ [s])
  := by
  obtain ⟨hzeroed, halike⟩ := h.admits_iff.mp hadmits
  constructor
  · rw [List.forall_mem_append, List.forall_mem_singleton]
    use h.byteCount_pos, hs
  · rw [List.forall_mem_append, List.forall_mem_singleton]
    use h.isZeroed_eq, hzeroed
  · intro hg
    rw [List.forall_mem_append, List.forall_mem_singleton]
    exact ⟨h.alike hg, halike hg⟩
  · rw [List.filter_append, List.map_append, List.sum_append, sum_stored_singleton,
      ← h.fileSize_eq]
    rfl
  · rw [List.map_append, List.sum_append, ← h.memorySize_eq, List.map_singleton,
      List.sum_singleton]
    rfl
  · have hle : (g.join index s).base ≤ g.base ∧ (g.join index s).base ≤ s.bounds.base := by
      rw [Segment.join]
      split
      · next hlt => exact ⟨UInt16.le_of_lt hlt, UInt16.le_refl _⟩
      · next hlt => exact ⟨UInt16.le_refl _, UInt16.not_lt.mp hlt⟩
    constructor
    · rw [Segment.join]
      split
      · exact ⟨s, List.mem_concat_self, rfl⟩
      · obtain ⟨t, ht, hbase⟩ := h.isLeast_base.1
        exact ⟨t, List.mem_append_left _ ht, hbase⟩
    · rintro _ ⟨t, ht, rfl⟩
      obtain ht | ht := List.mem_append.mp ht
      · apply UInt16.le_trans hle.1 (h.isLeast_base.2 ⟨t, ht, rfl⟩)
      · rw [List.mem_singleton.mp ht]
        apply hle.2

/-- Neighbouring segments that could not have been one: not both are zeroed, and if none is, they
allow different accesses. -/
def Apart (g h : Segment) : Prop :=
  ¬ (g.isZeroed ∧ h.isZeroed)
    ∧ (¬ g.isZeroed → ¬ h.isZeroed → ¬ g.flags.Alike h.flags)

theorem Gathers.apart (h : g.Gathers members) (hadmits : ¬ g.admits s) {k : Segment}
    (hzeroed : k.isZeroed = s.isZeroed) (hflags : k.flags = s.flags) :
  g.Apart k
  := by
  rw [h.admits_iff, ← hzeroed, ← hflags] at hadmits
  cases hg : g.isZeroed with
  | true =>
      cases hk : k.isZeroed with
      | true => simp [hg, hk] at hadmits
      | false => simp [Apart, hg, hk]
  | false =>
      cases hk : k.isZeroed with
      | true => simp [Apart, hg, hk]
      | false => simpa [Apart, hg, hk] using hadmits

end Segment

/-! ### All segments -/

/-- The segments of sections that are given with their positions. -/
inductive Segmented : List (Section × Nat) → List Segment → Prop
  | nil : Segmented [] []
  | cons {run xs : List (Section × Nat)} {g : Segment} {gs : List Segment}
      (hsections : g.sections = run.map (·.2)) (hg : g.Gathers (run.map (·.1)))
      (hapart : ∀ k ∈ gs.head?, g.Apart k) (hgs : Segmented xs gs) :
      Segmented (run ++ xs) (g :: gs)

namespace Segmented

variable {xs : List (Section × Nat)} {gs : List Segment}

theorem flatMap_sections (h : Segmented xs gs) :
  gs.flatMap (·.sections) = xs.map (·.2)
  := by
  induction h with
  | nil => rfl
  | cons hsections _ _ _ ih => rw [List.flatMap_cons, List.map_append, ih, hsections]

theorem isChain (h : Segmented xs gs) :
  gs.IsChain Segment.Apart
  := by
  induction h with
  | nil => apply List.IsChain.nil
  | cons _ _ hapart _ ih => apply ih.cons hapart

theorem exists_run (h : Segmented xs gs) {g : Segment} (hg : g ∈ gs) :
  ∃ run ⊆ xs, g.sections = run.map (·.2) ∧ g.Gathers (run.map (·.1))
  := by
  induction h with
  | nil => cases hg
  | @cons run xs g' gs hsections hgathers _ _ ih =>
      obtain rfl | hg := List.mem_cons.mp hg
      · use run, List.subset_append_left _ _
      · obtain ⟨run', hsub, hrun'⟩ := ih hg
        use run', List.subset_append_of_subset_right _ hsub

/-- The stored sections are those with bytes that are not zeroed. -/
theorem storedSections_eq (h : Segmented xs gs) :
  storedSections gs = (xs.filter (!·.1.isZeroed)).map (·.2)
  := by
  induction h with
  | nil => rfl
  | @cons run xs g gs hsections hg _ _ ih =>
      rw [storedSections, List.filter_cons, List.filter_append, List.map_append, ← ih,
        storedSections]
      have hzeroed : ∀ x ∈ run, x.1.isZeroed = g.isZeroed :=
        fun x hx => hg.isZeroed_eq x.1 (List.mem_map_of_mem hx)
      cases hisZeroed : g.isZeroed with
      | true =>
          have hnone : run.filter (!·.1.isZeroed) = [] := by
            apply List.filter_eq_nil_iff.mpr
            intro x hx
            simp [hzeroed x hx, hisZeroed]
          rw [hnone]
          rfl
      | false =>
          have hall : run.filter (!·.1.isZeroed) = run := by
            apply List.filter_eq_self.mpr
            intro x hx
            simp [hzeroed x hx, hisZeroed]
          rw [hall, ← hsections]
          rfl

end Segmented

namespace Segment

theorem exists_collect_eq_cons (g : Segment) (xs : List (Section × Nat)) :
  ∃ k gs, collect (some g) xs = k :: gs ∧ k.isZeroed = g.isZeroed ∧ k.flags = g.flags
  := by
  induction xs generalizing g with
  | nil => exact ⟨g, [], rfl, rfl, rfl⟩
  | cons x xs ih =>
      obtain ⟨s, index⟩ := x
      rw [collect]
      split
      · apply ih
      · split
        · apply ih (g.join index s)
        · exact ⟨g, _, rfl, rfl, rfl⟩

/-- Going on with an open segment. -/
theorem segmented_collect {g : Segment} {run xs : List (Section × Nat)}
    (hvacant : ∀ x ∈ xs, x.1.isVacant ↔ ¬ 0 < x.1.bounds.byteCount)
    (hsections : g.sections = run.map (·.2)) (hg : g.Gathers (run.map (·.1))) :
  Segmented (run ++ xs.filter (0 < ·.1.bounds.byteCount)) (collect (some g) xs)
  := by
  induction xs generalizing g run with
  | nil => apply Segmented.cons hsections hg (by simp) .nil
  | cons x xs ih =>
      obtain ⟨s, index⟩ := x
      rw [List.forall_mem_cons] at hvacant
      rw [collect]
      split
      · next hs =>
        rw [List.filter_cons_of_neg (by simpa using hvacant.1.mp hs)]
        apply ih hvacant.2 hsections hg
      · next hs =>
        have hpos : 0 < s.bounds.byteCount := by
          rwa [hvacant.1, not_not] at hs
        rw [List.filter_cons_of_pos (by simpa using hpos)]
        split
        · next hadmits =>
          rw [List.append_cons]
          apply ih hvacant.2
          · rw [List.map_append, ← hsections]
            rfl
          · rw [List.map_append]
            apply hg.join hpos hadmits
        · next hadmits =>
          apply Segmented.cons hsections hg
          · obtain ⟨k, gs, hcollect, hzeroed, hflags⟩ :=
              exists_collect_eq_cons (single index s) xs
            rw [hcollect]
            rintro _ ⟨⟩
            apply hg.apart hadmits hzeroed hflags
          · have hrest : Segmented ([(s, index)] ++ _) _ :=
              ih hvacant.2 rfl (gathers_single index hpos)
            apply hrest

theorem segmented_collect_none {xs : List (Section × Nat)}
    (hvacant : ∀ x ∈ xs, x.1.isVacant ↔ ¬ 0 < x.1.bounds.byteCount) :
  Segmented (xs.filter (0 < ·.1.bounds.byteCount)) (collect none xs)
  := by
  induction xs with
  | nil => apply Segmented.nil
  | cons x xs ih =>
      obtain ⟨s, index⟩ := x
      rw [List.forall_mem_cons] at hvacant
      rw [collect]
      split
      · next hs =>
        rw [List.filter_cons_of_neg (by simpa using hvacant.1.mp hs)]
        apply ih hvacant.2
      · next hs =>
        have hpos : 0 < s.bounds.byteCount := by
          rwa [hvacant.1, not_not] at hs
        rw [List.filter_cons_of_pos (by simpa using hpos)]
        have hrest : Segmented ([(s, index)] ++ _) _ :=
          segmented_collect hvacant.2 rfl (gathers_single index hpos)
        apply hrest

end Segment

/-- What the segments of a list of sections are. -/
structure SegmentLaw (sections : List Section) (gs : List Segment) : Prop where
  /-- Every section with bytes is in one segment, in order. -/
  flatMap_sections : gs.flatMap (·.sections)
    = (sections.zipIdx.filter (0 < ·.1.bounds.byteCount)).map (·.2)
  /-- A segment has the flags, the sizes and the base that its sections give it. -/
  gathers : ∀ g ∈ gs, g.Gathers (g.sections.filterMap (sections[·]?))
  /-- Neighbours could not have been one segment. -/
  isChain : gs.IsChain Segment.Apart

theorem filterMap_getElem?_map_snd {sections : List Section} {run : List (Section × Nat)}
    (h : ∀ x ∈ run, sections[x.2]? = some x.1) :
  (run.map (·.2)).filterMap (sections[·]?) = run.map (·.1)
  := by
  rw [List.filterMap_map, ← List.filterMap_eq_map]
  apply List.filterMap_congr h

theorem Segmented.law {sections : List Section} {gs : List Segment}
    (h : Segmented (sections.zipIdx.filter (0 < ·.1.bounds.byteCount)) gs) :
  SegmentLaw sections gs
  := by
  refine ⟨h.flatMap_sections, ?_, h.isChain⟩
  intro g hg
  obtain ⟨run, hsub, hsections, hgathers⟩ := h.exists_run hg
  rw [hsections, filterMap_getElem?_map_snd]
  · apply hgathers
  · intro x hx
    apply List.mem_zipIdx_iff_getElem?.mp (List.mem_of_mem_filter (hsub hx))

theorem segmented_of_assemble {program : Program} {symbols : SymbolTable} {options : Options}
    {a : Assembly} (h : (assemble program symbols options).outcome = .ok a) :
  Segmented (a.sections.zipIdx.filter (0 < ·.1.bounds.byteCount)) (segments a.sections)
  := by
  obtain ⟨sections, hsections, hassign, -⟩ := exists_layout_of_assemble h
  apply Segment.segmented_collect_none
  intro x hx
  obtain ⟨i, ps, hlaid, -⟩ :=
    exists_laidOut hsections hassign (List.fst_mem_of_mem_zipIdx hx)
  rw [Section.isVacant, Bool.and_eq_true, decide_eq_true_eq, decide_eq_true_eq, Nat.not_lt,
    Nat.le_zero]
  use fun h => h.2
  intro hbytes
  use hlaid.extent_eq_zero hbytes

/-- The segments of an assembled program cut its sections with bytes into the longest runs that can
be loaded together. -/
theorem segments_of_assembly {program : Program} {symbols : SymbolTable} {options : Options}
    {a : Assembly} (h : (assemble program symbols options).outcome = .ok a) :
  SegmentLaw a.sections (segments a.sections)
  := by
  apply Segmented.law
  apply segmented_of_assemble h

/-- A program whose first section is empty and whose last one comes back to where it begins. -/
def Program.grouped : Program :=
  [{ kind := .opening ⟨"data", { readable := true, writable := true }⟩ },
    { kind := .data .word (.literal (.decimal 1)) },
    { kind := .opening ⟨"more", { readable := true, writable := true }⟩ },
    { kind := .data .byte (.literal (.decimal 2)) },
    { kind := .opening ⟨"zeros", { writable := true, zeroed := true }⟩ },
    { kind := .block (.literal (.decimal 4)) },
    { kind := .opening ⟨"heap", { readable := true, zeroed := true }⟩ },
    { kind := .block (.literal (.decimal 2)) },
    { kind := .opening ⟨"code", { readable := true, executable := true }⟩ },
    { kind := .origin .org (.literal (.hexadecimal 16)) },
    { kind := .data .byte (.literal (.decimal 3)) },
    { kind := .origin .org (.literal (.hexadecimal 16)) }]

theorem segments_assemble_grouped :
  (assemble .grouped { id := 0 } {}).outcome.map (fun a => segments a.sections)
    = .ok [
      ⟨{ readable := true, writable := true }, false, [1, 2], 7, 3, 3⟩,
      ⟨{ writable := true, zeroed := true }, true, [3, 4], 10, 0, 6⟩,
      ⟨{ readable := true, executable := true }, false, [5], 16, 1, 1⟩]
  := by
  cbv

theorem segments_of_assembly_grouped :
  ∃ a, (assemble .grouped { id := 0 } {}).outcome = .ok a
    ∧ (segments a.sections).map (·.sections) = [[1, 2], [3, 4], [5]]
    ∧ SegmentLaw a.sections (segments a.sections)
  := by
  obtain ⟨a, ha, hsegments⟩ := Except.map_eq_ok_iff.mp segments_assemble_grouped
  refine ⟨a, ha, ?_, segments_of_assembly ha⟩
  rw [hsegments]
  rfl

end Pep10
