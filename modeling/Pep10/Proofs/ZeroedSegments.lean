import Pep10.Proofs.Segments

/-!
# Accesses to zeroed segments

A zeroed segment has the flags of its first section.  A zeroed section joins the segment before it
by the number of its bytes in the output alone, so neighbouring zeroed sections are in one segment
whatever accesses they allow.  The sections of every zeroed segment allow the accesses that the
segment allows just when neighbouring zeroed sections always allow the same ones.
-/

namespace Pep10

namespace Flags

variable {f g h : Flags}

theorem Alike.symm (hfg : f.Alike g) :
  g.Alike f
  := ⟨hfg.readable_eq.symm, hfg.writable_eq.symm, hfg.executable_eq.symm⟩

theorem Alike.trans (hfg : f.Alike g) (hgh : g.Alike h) :
  f.Alike h
  := ⟨hfg.readable_eq.trans hgh.readable_eq, hfg.writable_eq.trans hgh.writable_eq,
    hfg.executable_eq.trans hgh.executable_eq⟩

end Flags

/-- Do two sections allow the same accesses? -/
def Section.Alike (s t : Section) : Prop :=
  s.flags.Alike t.flags

instance : IsTrans Section Section.Alike where
  trans _ _ _ := Flags.Alike.trans

/-! ### The first section of a segment -/

namespace Segment

/-- The sections of a segment. -/
def members (g : Segment) (sections : List Section) : List Section :=
  g.sections.filterMap (sections[·]?)

/-- A segment that was opened by a section. -/
def OpenedBy (g : Segment) (x : Section × Nat) : Prop :=
  g.sections.head? = some x.2 ∧ g.flags = x.1.flags

theorem OpenedBy.join {g : Segment} {x : Section × Nat} (h : g.OpenedBy x) (index : Nat)
    (s : Section) :
  (g.join index s).OpenedBy x
  := by
  refine ⟨?_, h.2⟩
  rw [Segment.join, List.head?_append, h.1]
  rfl

/-- Every segment was opened by one of the sections. -/
theorem exists_openedBy {current : Option Segment} {xs ys : List (Section × Nat)}
    (hcurrent : ∀ g ∈ current, ∃ x ∈ ys, g.OpenedBy x) (hsub : ∀ x ∈ xs, x ∈ ys) :
  ∀ g ∈ collect current xs, ∃ x ∈ ys, g.OpenedBy x
  := by
  fun_induction collect current xs with
  | case1 current => simpa using hcurrent
  | case2 current s index rest _ ih =>
      rw [List.forall_mem_cons] at hsub
      apply ih hcurrent hsub.2
  | case3 s index rest _ ih =>
      rw [List.forall_mem_cons] at hsub
      apply ih _ hsub.2
      rintro _ ⟨⟩
      exact ⟨(s, index), hsub.1, rfl, rfl⟩
  | case4 s index rest _ g _ ih =>
      rw [List.forall_mem_cons] at hsub
      obtain ⟨x, hx, hg⟩ := hcurrent g rfl
      apply ih _ hsub.2
      rintro _ ⟨⟩
      exact ⟨x, hx, hg.join index s⟩
  | case5 s index rest _ g _ ih =>
      rw [List.forall_mem_cons] at hsub
      rw [List.forall_mem_cons]
      use hcurrent g rfl
      apply ih _ hsub.2
      rintro _ ⟨⟩
      exact ⟨(s, index), hsub.1, rfl, rfl⟩

/-- A segment has the flags of its first section. -/
theorem head?_members {sections : List Section} {g : Segment} (hg : g ∈ segments sections) :
  (g.members sections).head?.map (·.flags) = some g.flags
  := by
  obtain ⟨x, hx, hhead, hflags⟩ := exists_openedBy (by simp) (fun x hx => hx) g hg
  obtain ⟨rest, hsections⟩ := List.head?_eq_some_iff.mp hhead
  rw [members, hsections, List.filterMap_cons_some (List.mem_zipIdx_iff_getElem?.mp hx),
    List.head?_cons, Option.map_some, hflags]

/-- The sections of a segment allow its accesses when each of them allows those of the next. -/
theorem forall_alike_iff {sections : List Section} {g : Segment}
    (hg : g ∈ segments sections) :
  (∀ s ∈ g.members sections, g.flags.Alike s.flags)
    ↔ (g.members sections).IsChain Section.Alike
  := by
  have hhead := head?_members hg
  cases hmembers : g.members sections with
  | nil =>
      rw [hmembers] at hhead
      cases hhead
  | cons first rest =>
      rw [hmembers, List.head?_cons, Option.map_some, Option.some_inj] at hhead
      rw [← hhead, List.isChain_iff_pairwise]
      constructor
      · intro h
        apply List.pairwise_of_forall_mem_list
        intro s hs t ht
        apply (h s hs).symm.trans (h t ht)
      · intro h
        rw [List.forall_mem_cons]
        use .refl _, (List.pairwise_cons.mp h).1

end Segment

/-! ### Neighbouring zeroed sections -/

/-- Do two sections allow the same accesses if both are zeroed? -/
def Section.AlikeIfZeroed (s t : Section) : Prop :=
  s.isZeroed → t.isZeroed → s.Alike t

/-- Among the sections of a segment, only those of a zeroed one have to be compared. -/
theorem Segment.Gathers.isChain_iff {g : Segment} {members : List Section}
    (h : g.Gathers members) :
  members.IsChain Section.AlikeIfZeroed ↔ (g.isZeroed → members.IsChain Section.Alike)
  := by
  cases hg : g.isZeroed with
  | true =>
      rw [forall_prop_of_true rfl]
      apply List.IsChain.iff_of_mem_imp
      intro s t hs ht
      simp [Section.AlikeIfZeroed, h.isZeroed_eq s hs, h.isZeroed_eq t ht, hg]
  | false =>
      have hchain : members.IsChain Section.AlikeIfZeroed := by
        apply List.Pairwise.isChain
        apply List.pairwise_of_forall_mem_list
        intro s hs t _ hzeroed
        rw [h.isZeroed_eq s hs, hg] at hzeroed
        cases hzeroed
      simp [hchain]

namespace Segmented

variable {sections : List Section} {xs : List (Section × Nat)} {gs : List Segment}

/-- The first section is in the first segment. -/
theorem exists_head? (h : Segmented xs gs) {s : Section} (hs : s ∈ (xs.map (·.1)).head?) :
  ∃ g ∈ gs.head?, s.isZeroed = g.isZeroed
  := by
  cases h with
  | nil => cases hs
  | @cons run xs g gs _ hg _ _ =>
      cases run with
      | nil =>
          obtain ⟨t, ht, -⟩ := hg.isLeast_base.1
          cases ht
      | cons x run =>
          cases hs
          exact ⟨g, rfl, hg.isZeroed_eq x.1 List.mem_cons_self⟩

/-- Two neighbours that are both zeroed are in one segment. -/
theorem isChain_iff (h : Segmented xs gs) (hxs : ∀ x ∈ xs, sections[x.2]? = some x.1) :
  (xs.map (·.1)).IsChain Section.AlikeIfZeroed
    ↔ ∀ g ∈ gs, g.isZeroed → (g.members sections).IsChain Section.Alike
  := by
  induction h with
  | nil => simp
  | @cons run xs g gs hsections hg hapart hgs ih =>
      rw [List.forall_mem_append] at hxs
      have hmembers : g.members sections = run.map (·.1) := by
        rw [Segment.members, hsections, filterMap_getElem?_map_snd hxs.1]
      have hseam : ∀ s ∈ (run.map (·.1)).getLast?, ∀ t ∈ (xs.map (·.1)).head?,
          s.AlikeIfZeroed t := by
        intro s hs t ht hs' ht'
        obtain ⟨k, hk, htk⟩ := hgs.exists_head? ht
        rw [hg.isZeroed_eq s (List.mem_of_getLast? hs)] at hs'
        rw [htk] at ht'
        exact absurd ⟨hs', ht'⟩ (hapart k hk).1
      rw [List.map_append, List.isChain_append, and_iff_left hseam, List.forall_mem_cons,
        hg.isChain_iff, ih hxs.2, hmembers]

end Segmented

/-- What zeroed segments have to do with the accesses that their sections allow. -/
structure ZeroedLaw (sections : List Section) (gs : List Segment) : Prop where
  /-- A segment has the flags of its first section. -/
  head?_members : ∀ g ∈ gs, (g.members sections).head?.map (·.flags) = some g.flags
  /-- The sections of a zeroed segment are zeroed. -/
  isZeroed : ∀ g ∈ gs, g.isZeroed → ∀ s ∈ g.members sections, s.isZeroed
  /-- They all allow the accesses of their segment if neighbouring zeroed sections with bytes
  always allow the same ones, and otherwise not. -/
  alike_iff :
    (∀ g ∈ gs, g.isZeroed → ∀ s ∈ g.members sections, g.flags.Alike s.flags)
      ↔ (sections.filter (0 < ·.bounds.byteCount)).IsChain Section.AlikeIfZeroed

/-- The zeroed segments of an assembled program. -/
theorem zeroedLaw_of_assembly {program : Program} {symbols : SymbolTable} {options : Options}
    {a : Assembly} (h : (assemble program symbols options).outcome = .ok a) :
  ZeroedLaw a.sections (segments a.sections)
  := by
  have hsegmented := segmented_of_assemble h
  have hpositions : ∀ x ∈ a.sections.zipIdx.filter (0 < ·.1.bounds.byteCount),
      a.sections[x.2]? = some x.1 :=
    fun x hx => List.mem_zipIdx_iff_getElem?.mp (List.mem_of_mem_filter hx)
  have hfilter : (a.sections.zipIdx.filter (0 < ·.1.bounds.byteCount)).map (·.1)
      = a.sections.filter (0 < ·.bounds.byteCount) := by
    conv_rhs => rw [← List.zipIdx_map_fst 0 a.sections, List.filter_map]
    rfl
  refine {
    head?_members := fun g hg => Segment.head?_members hg
    isZeroed := ?_
    alike_iff := ?_ }
  · intro g hg hzeroed s hs
    have hgathers := hsegmented.law.gathers g hg
    rw [hgathers.isZeroed_eq s hs, hzeroed]
  · rw [← hfilter, hsegmented.isChain_iff hpositions]
    apply forall₂_congr
    intro g hg
    rw [Segment.forall_alike_iff hg]

/-- A program with two zeroed sections, of which only the second one can be written. -/
def Program.unalike : Program :=
  [{ kind := .opening ⟨"fixed", { readable := true, zeroed := true }⟩ },
    { kind := .block (.literal (.decimal 2)) },
    { kind := .opening ⟨"heap", { readable := true, writable := true, zeroed := true }⟩ },
    { kind := .block (.literal (.decimal 4)) }]

/-- Its two zeroed sections are in one segment. -/
theorem exists_assemble_unalike :
  ∃ a, (assemble .unalike { id := 0 } {}).outcome = .ok a
    ∧ segments a.sections = [⟨{ readable := true, zeroed := true }, true, [1, 2], 0, 0, 6⟩]
    ∧ a.sections.map (·.flags) = [.rwx, { readable := true, zeroed := true },
      { readable := true, writable := true, zeroed := true }]
  := by
  have hmap : (assemble .unalike { id := 0 } {}).outcome.map
        (fun a => (segments a.sections, a.sections.map (·.flags)))
      = .ok ([⟨{ readable := true, zeroed := true }, true, [1, 2], 0, 0, 6⟩],
          [.rwx, { readable := true, zeroed := true },
            { readable := true, writable := true, zeroed := true }]) := by
    cbv
  obtain ⟨a, ha, hpair⟩ := Except.map_eq_ok_iff.mp hmap
  obtain ⟨hsegments, hflags⟩ := Prod.mk_inj.mp hpair
  exact ⟨a, ha, hsegments, hflags⟩

theorem zeroedLaw_of_assembly_unalike :
  ∃ a, (assemble .unalike { id := 0 } {}).outcome = .ok a
    ∧ (segments a.sections).map (·.sections) = [[1, 2]]
    ∧ ZeroedLaw a.sections (segments a.sections)
  := by
  obtain ⟨a, ha, hsegments, -⟩ := exists_assemble_unalike
  refine ⟨a, ha, ?_, zeroedLaw_of_assembly ha⟩
  rw [hsegments]
  rfl

theorem not_forall_samePermissions_of_isZeroed :
  ¬ ∀ (program : Program) (symbols : SymbolTable) (options : Options) (a : Assembly),
    (assemble program symbols options).outcome = .ok a →
    ∀ g ∈ segments a.sections, g.isZeroed →
      ∀ s ∈ g.members a.sections, g.flags.Alike s.flags
  := by
  intro h
  obtain ⟨a, ha, hsegments, hflags⟩ := exists_assemble_unalike
  have hall := h _ _ _ a ha
  rw [hsegments, List.forall_mem_singleton] at hall
  -- the second member is the section with the flags at position 2
  have hheap := congrArg (·[2]?) hflags
  simp only [List.getElem?_map] at hheap
  obtain ⟨s, hs, hflags⟩ := Option.map_eq_some_iff.mp hheap
  have hmem : s ∈ [1, 2].filterMap (a.sections[·]?) := by
    rw [List.mem_filterMap]
    exact ⟨2, by simp, hs⟩
  have halike := hall rfl s hmem
  rw [hflags] at halike
  cases halike.writable_eq

end Pep10
