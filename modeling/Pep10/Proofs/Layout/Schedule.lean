import Pep10.Proofs.Layout.Tiling
import Mathlib.Data.List.Nodup

/-!
# Anchors

Every layout starts from one place, its anchor, and goes backward to the lines before it and
forward to those after it.  The anchor of a program with an `.ORG` is the first of them.  A
`.BURN` puts it after the last line, and otherwise it stands before the first line, at the base.
The schedule of a program is that of its anchor, and the check that every section comes once
never fails.
-/

namespace Pep10

/-! ### The first origin line -/

/-- Lines in the order of their sections. -/
def sectionOrder (sections : List Section) : List NumberedLine :=
  sections.flatMap (·.lines)

theorem firstOrigin?_eq_none_iff {kind : OriginKind} {sections : List Section} :
  firstOrigin? kind sections = none ↔ ∀ l ∈ sectionOrder sections, l.origin? kind = none
  := by
  simp only [firstOrigin?, List.findSome?_eq_none_iff, Option.map_eq_none_iff, Prod.forall,
    sectionOrder, List.mem_flatMap, forall_exists_index, and_imp]
  constructor
  · intro h l s hs hl
    obtain ⟨i, hi⟩ := List.mem_iff_getElem?.mp hs
    obtain ⟨j, hj⟩ := List.mem_iff_getElem?.mp hl
    apply h s i (List.mem_zipIdx_iff_getElem?.mpr hi) l j (List.mem_zipIdx_iff_getElem?.mpr hj)
  · intro h s i hs l j hl
    apply h l s (List.fst_mem_of_mem_zipIdx hs) (List.fst_mem_of_mem_zipIdx hl)

/-- Finding in a list with positions: what is found stands after elements that do not count. -/
theorem findSome?_zipIdx_eq_some {α β : Type} {f : α × Nat → Option β} {xs : List α} {b : β}
    (h : xs.zipIdx.findSome? f = some b) :
  ∃ before x after, xs = before ++ x :: after ∧ f (x, before.length) = some b
    ∧ ∀ y ∈ before, ∃ i, f (y, i) = none
  := by
  obtain ⟨ys, ⟨x, i⟩, zs, hxs, hfound, hbefore⟩ := List.findSome?_eq_some_iff.mp h
  obtain ⟨before, rest, rfl, rfl, hrest⟩ := List.zipIdx_eq_append_iff.mp hxs
  obtain ⟨x', after, rfl, hx, -⟩ := List.zipIdx_eq_cons_iff.mp hrest.symm
  cases hx
  use before, x, after, rfl
  constructor
  · simpa using hfound
  · intro y hy
    obtain ⟨j, hj⟩ := List.mem_iff_getElem?.mp hy
    use j
    apply hbefore (y, j) (List.mem_zipIdx_iff_getElem?.mpr hj)

/-- The first origin line stands after lines that are none. -/
theorem firstOrigin?_eq_some {kind : OriginKind} {sections : List Section} {site : OriginSite}
    (h : firstOrigin? kind sections = some site) :
  ∃ before s after pre l post, sections = before ++ s :: after ∧ before.length = site.index
    ∧ s.lines = pre ++ l :: post ∧ pre.length = site.position
    ∧ l.id = site.line ∧ l.origin? kind = some site.argument
    ∧ ∀ l' ∈ sectionOrder before ++ pre, l'.origin? kind = none
  := by
  rw [firstOrigin?] at h
  obtain ⟨before, s, after, rfl, hs, hbefore⟩ := findSome?_zipIdx_eq_some h
  obtain ⟨pre, l, post, hlines, hl, hpre⟩ := findSome?_zipIdx_eq_some hs
  obtain ⟨argument, horigin, rfl⟩ := Option.map_eq_some_iff.mp hl
  use before, s, after, pre, l, post, rfl, rfl, hlines, rfl, rfl, horigin
  intro l' hl'
  obtain hl' | hl' := List.mem_append.mp hl'
  · obtain ⟨t, ht, hl'⟩ := List.mem_flatMap.mp hl'
    obtain ⟨i, hnone⟩ := hbefore t ht
    rw [List.findSome?_eq_none_iff] at hnone
    obtain ⟨j, hj⟩ := List.mem_iff_getElem?.mp hl'
    have := hnone (l', j) (List.mem_zipIdx_iff_getElem?.mpr hj)
    simpa using this
  · obtain ⟨j, hnone⟩ := hpre l' hl'
    simpa using hnone

/-- The first origin line, as it is found in the order of the sections. -/
theorem exists_find?_of_firstOrigin? {kind : OriginKind} {sections : List Section}
    {site : OriginSite} (h : firstOrigin? kind sections = some site) :
  ∃ l, (sectionOrder sections).find? (fun l => (l.origin? kind).isSome) = some l
    ∧ l.id = site.line ∧ l.origin? kind = some site.argument
  := by
  obtain ⟨before, s, after, pre, l, post, rfl, -, hlines, -, hid, horigin, hbefore⟩ :=
    firstOrigin?_eq_some h
  use l
  constructor
  · apply List.find?_eq_some_iff_append.mpr
    constructor
    · rw [horigin]
      rfl
    · use sectionOrder before ++ pre, post ++ sectionOrder after
      constructor
      · simp [sectionOrder, hlines]
      · intro l' hl'
        simp [hbefore l' hl']
  · use hid, horigin

/-! ### The anchor of a program -/

/-- The lines of the section at a position. -/
def linesAt (sections : List Section) (index : Nat) : List NumberedLine :=
  (sections[index]?.map (·.lines)).getD []

theorem linesAt_append_cons (before : List Section) (s : Section) (after : List Section) :
  linesAt (before ++ s :: after) before.length = s.lines
  := by
  simp [linesAt]

/-- Where a layout starts: the lines of the section `index` from the position `split` on go
forward from `origin`, and those before them backward from below it. -/
structure Anchor where
  index : Nat
  split : Nat
  origin : UInt16

/-- The anchor of a list of sections. -/
def anchor (sections : List Section) (base : UInt16) : Except AssemblyError Anchor :=
  match firstOrigin? .org sections with
  | some site => do return ⟨site.index, site.position, ← originValue site.line site.argument⟩
  | none =>
    match firstOrigin? .burn sections with
    | some site => do
      return {
        index := sections.length - 1
        split := (sections.getLast?.map (·.lines.length)).getD 0
        origin := (← originValue site.line site.argument) + 1 }
    | none => return ⟨0, 0, base⟩

namespace Anchor

/-- The steps of a layout of `n` sections. -/
def steps (a : Anchor) (n : Nat) : List Step :=
  .anchor a.index a.split a.origin :: (backwardBelow a.index ++ forwardFrom (a.index + 1) n)

/-- The lines that are laid out backward. -/
def below (a : Anchor) (sections : List Section) : List NumberedLine :=
  sectionOrder (sections.take a.index) ++ (linesAt sections a.index).take a.split

/-- The lines that are laid out forward. -/
def above (a : Anchor) (sections : List Section) : List NumberedLine :=
  (linesAt sections a.index).drop a.split ++ sectionOrder (sections.drop (a.index + 1))

end Anchor

theorem planSteps_eq {sections : List Section} (hne : sections ≠ []) (base : UInt16) :
  planSteps sections base = (anchor sections base).map (·.steps sections.length)
  := by
  have hlength : sections.length - 1 + 1 = sections.length :=
    Nat.sub_add_cancel (List.length_pos_of_ne_nil hne)
  rw [planSteps, anchor]
  cases firstOrigin? .org sections with
  | some site =>
      cases h : originValue site.line site.argument with
      | error e => simp [h, bind, Except.bind, Except.map]
      | ok origin => simp [h, bind, Except.bind, Except.map, pure, Except.pure, Anchor.steps]
  | none =>
      cases firstOrigin? .burn sections with
      | some site =>
          cases h : originValue site.line site.argument with
          | error e => simp [h, bind, Except.bind, Except.map]
          | ok last =>
              simp [h, bind, Except.bind, Except.map, pure, Except.pure, Anchor.steps, hlength,
                forwardFrom]
      | none =>
          simp [hne, Except.map, pure, Except.pure, Anchor.steps, backwardBelow]

/-- Steps that come once each, among `n` sections, pass the check. -/
theorem repeatedStep?_eq_none {n : Nat} :
    ∀ {seen : List Nat} {steps : List Step}, (∀ step ∈ steps, step.index < n) →
      (seen ++ steps.map (·.index)).Nodup → repeatedStep? n seen steps = none
  | _, [], _, _ => rfl
  | seen, step :: steps, hn, hnodup => by
      rw [List.forall_mem_cons] at hn
      rw [List.map_cons, List.nodup_middle, List.nodup_cons, List.mem_append, not_or] at hnodup
      rw [repeatedStep?, if_neg]
      · apply repeatedStep?_eq_none hn.2
        rw [List.cons_append, List.nodup_cons, List.mem_append, not_or]
        apply hnodup
      · simp only [Bool.or_eq_true, decide_eq_true_eq, List.contains_iff_mem, not_or]
        use Nat.not_le_of_lt hn.1, hnodup.1.1

theorem Anchor.index_steps (a : Anchor) (n : Nat) :
  (a.steps n).map (·.index)
    = a.index :: ((List.range a.index).reverse ++ List.range' (a.index + 1) (n - (a.index + 1)))
  := by
  simp [steps, backwardBelow, forwardFrom, Step.index, Function.comp_def]

/-- The steps of an anchor among `n` sections have each of them once. -/
theorem Anchor.index_steps_perm {a : Anchor} {n : Nat} (h : a.index < n) :
  ((a.steps n).map (·.index)).Perm (List.range n)
  := by
  have hrange : List.range n
      = List.range a.index ++ a.index :: List.range' (a.index + 1) (n - (a.index + 1)) := by
    have happend := List.range'_append_1 (s := 0) (m := a.index) (n := n - (a.index + 1) + 1)
    rw [Nat.zero_add, List.range'_succ] at happend
    rw [List.range_eq_range', List.range_eq_range', happend]
    congr 1
    omega
  rw [index_steps, hrange]
  apply List.Perm.trans _ List.perm_middle.symm
  apply List.Perm.cons
  apply List.Perm.append_right
  apply List.reverse_perm

theorem anchor_index_lt {sections : List Section} (hne : sections ≠ []) {base : UInt16}
    {a : Anchor} (h : anchor sections base = .ok a) :
  a.index < sections.length
  := by
  have hpos := List.length_pos_of_ne_nil hne
  rw [anchor] at h
  split at h
  · next site hsite =>
    obtain ⟨origin, -, h⟩ := Except.bind_eq_ok_iff.mp h
    cases h
    obtain ⟨before, s, after, pre, l, post, rfl, hlength, -⟩ := firstOrigin?_eq_some hsite
    simp only [List.length_append, List.length_cons]
    omega
  · split at h
    · obtain ⟨origin, -, h⟩ := Except.bind_eq_ok_iff.mp h
      cases h
      apply Nat.sub_lt hpos Nat.one_pos
    · cases h
      apply hpos

/-- The schedule of a program is that of its anchor. -/
theorem schedule_eq {sections : List Section} (hne : sections ≠ []) (base : UInt16) :
  schedule sections base = (anchor sections base).map (·.steps sections.length)
  := by
  rw [schedule, planSteps_eq hne]
  cases h : anchor sections base with
  | error e => rfl
  | ok a =>
      have hperm := Anchor.index_steps_perm (anchor_index_lt hne h)
      have hrepeated : repeatedStep? sections.length [] (a.steps sections.length) = none := by
        apply repeatedStep?_eq_none
        · intro step hstep
          rw [← List.mem_range, ← hperm.mem_iff]
          apply List.mem_map_of_mem hstep
        · rw [List.nil_append, hperm.nodup_iff]
          apply List.nodup_range
      have hlength : (a.steps sections.length).length = sections.length := by
        simpa using hperm.length_eq
      simp [Except.map, bind, Except.bind, hrepeated, hlength, pure, Except.pure]

/-! ### The lines on either side of an anchor -/

theorem Anchor.below_append_above {a : Anchor} {sections : List Section}
    (h : a.index < sections.length) :
  a.below sections ++ a.above sections = sectionOrder sections
  := by
  have hsplit : sections
      = sections.take a.index ++ sections[a.index] :: sections.drop (a.index + 1) := by
    rw [← List.drop_eq_getElem_cons h, List.take_append_drop]
  conv_rhs => rw [hsplit]
  rw [below, above, linesAt, List.getElem?_eq_getElem h, Option.map_some, Option.getD_some,
    List.append_assoc, ← List.append_assoc (List.take _ _), List.take_append_drop]
  simp only [sectionOrder, List.flatMap_append, List.flatMap_cons]

/-- An anchor stands at the first `.ORG`, after the last line of a program with a `.BURN`, or
before the first line. -/
theorem anchor_cases {sections : List Section} (hne : sections ≠ []) {base : UInt16} {a : Anchor}
    (h : anchor sections base = .ok a) :
  (∃ l rest argument, a.above sections = l :: rest ∧ l.origin? .org = some argument
      ∧ originValue l.id argument = .ok a.origin ∧ ∀ l' ∈ a.below sections, ¬ l'.IsOrg)
    ∨ ((∀ l ∈ sectionOrder sections, ¬ l.IsOrg) ∧ a.above sections = []
      ∧ ∃ l argument burn,
        (sectionOrder sections).find? (fun l => (l.origin? .burn).isSome) = some l
        ∧ l.origin? .burn = some argument ∧ originValue l.id argument = .ok burn
        ∧ a.origin = burn + 1)
    ∨ ((∀ l ∈ sectionOrder sections, ¬ l.IsOrg)
      ∧ (∀ l ∈ sectionOrder sections, l.origin? .burn = none)
      ∧ a.below sections = [] ∧ a.origin = base)
  := by
  rw [anchor] at h
  split at h
  · next site hsite =>
    obtain ⟨origin, horigin, h⟩ := Except.bind_eq_ok_iff.mp h
    cases h
    obtain ⟨before, s, after, pre, l, post, rfl, hbefore, hlines, hpre, hid, hl, hnone⟩ :=
      firstOrigin?_eq_some hsite
    left
    use l, post ++ sectionOrder after, site.argument
    simp only [Anchor.above, Anchor.below, ← hbefore, ← hpre, linesAt_append_cons, hlines, hid]
    refine ⟨?_, hl, horigin, ?_⟩
    · simp
    · intro l' hl'
      simp [NumberedLine.IsOrg, hnone l' (by simpa using hl')]
  · next horg =>
    right
    have hnoorg : ∀ l ∈ sectionOrder sections, ¬ l.IsOrg := by
      intro l hl
      simp [NumberedLine.IsOrg, firstOrigin?_eq_none_iff.mp horg l hl]
    split at h
    · next site hsite =>
      obtain ⟨burn, hburn, h⟩ := Except.bind_eq_ok_iff.mp h
      cases h
      left
      use hnoorg
      constructor
      · have hlast : sections[sections.length - 1]? = sections.getLast? :=
          List.getLast?_eq_getElem?.symm
        have hend : sections.length - 1 + 1 = sections.length :=
          Nat.sub_add_cancel (List.length_pos_of_ne_nil hne)
        simp only [Anchor.above, linesAt, hlast, hend]
        cases sections.getLast? with
        | none => simp [sectionOrder]
        | some s => simp [sectionOrder]
      · obtain ⟨l, hfind, hid, hl⟩ := exists_find?_of_firstOrigin? hsite
        use l, site.argument, burn, hfind, hl
        rw [hid]
        use hburn
    · next hburn =>
      cases h
      right
      use hnoorg, firstOrigin?_eq_none_iff.mp hburn
      simp [Anchor.below, sectionOrder]

/-- No `.ORG` is laid out backward. -/
theorem anchor_below_not_org {sections : List Section} (hne : sections ≠ []) {base : UInt16}
    {a : Anchor} (h : anchor sections base = .ok a) :
  ∀ l ∈ a.below sections, ¬ l.IsOrg
  := by
  have hmem : ∀ l ∈ a.below sections, l ∈ sectionOrder sections := by
    intro l hl
    rw [← Anchor.below_append_above (anchor_index_lt hne h)]
    apply List.mem_append_left _ hl
  obtain ⟨_, _, _, _, _, _, hbelow⟩ | ⟨hnone, _⟩ | ⟨hnone, _⟩ := anchor_cases hne h
  · apply hbelow
  · apply fun l hl => hnone l (hmem l hl)
  · apply fun l hl => hnone l (hmem l hl)

theorem find?_isOrg_append_cons {before : List NumberedLine} {l : NumberedLine}
    (hbefore : ∀ l' ∈ before, ¬ l'.IsOrg) (hl : l.IsOrg) (after : List NumberedLine) :
  (before ++ l :: after).find? (·.IsOrg) = some l
  := by
  rw [List.find?_append, List.find?_eq_none.mpr (by simpa using hbefore), Option.none_or,
    List.find?_cons_of_pos (by simpa using hl)]

section

variable {sections : List Section} {base : UInt16} {a : Anchor} {l : NumberedLine}
  {argument : Argument}

/-- A program is laid out from its first `.ORG`. -/
theorem anchor_of_org (hne : sections ≠ []) (h : anchor sections base = .ok a)
    (hfind : (sectionOrder sections).find? (·.IsOrg) = some l)
    (hl : l.origin? .org = some argument) :
  (∃ rest, a.above sections = l :: rest) ∧ originValue l.id argument = .ok a.origin
  := by
  have hmem := List.mem_of_find?_eq_some hfind
  have hisOrg := NumberedLine.isOrg_of_eq_some hl
  obtain ⟨o, rest, _, habove, ho, horigin, hbelow⟩ | ⟨hnone, _⟩ | ⟨hnone, _⟩ :=
    anchor_cases hne h
  · rw [← Anchor.below_append_above (anchor_index_lt hne h), habove,
      find?_isOrg_append_cons hbelow (NumberedLine.isOrg_of_eq_some ho)] at hfind
    obtain rfl := Option.some_inj.mp hfind
    obtain rfl := Option.some_inj.mp (ho.symm.trans hl)
    use ⟨rest, habove⟩
  · cases hnone l hmem hisOrg
  · cases hnone l hmem hisOrg

/-- A program without an `.ORG` is laid out down from its first `.BURN`. -/
theorem anchor_of_burn (hne : sections ≠ []) (h : anchor sections base = .ok a)
    (hnone : ∀ l ∈ sectionOrder sections, ¬ l.IsOrg)
    (hfind : (sectionOrder sections).find? (fun l => (l.origin? .burn).isSome) = some l)
    (hl : l.origin? .burn = some argument) :
  a.above sections = [] ∧ ∃ burn, originValue l.id argument = .ok burn ∧ a.origin = burn + 1
  := by
  obtain ⟨o, rest, _, habove, ho, _⟩ | ⟨_, habove, b, _, burn, hb, hargument, hburn, horigin⟩
    | ⟨_, hburn, _⟩ := anchor_cases hne h
  · apply absurd (NumberedLine.isOrg_of_eq_some ho) (hnone o _)
    rw [← Anchor.below_append_above (anchor_index_lt hne h), habove]
    simp
  · obtain rfl := Option.some_inj.mp (hb.symm.trans hfind)
    obtain rfl := Option.some_inj.mp (hargument.symm.trans hl)
    use habove, burn, hburn
  · cases (hburn l (List.mem_of_find?_eq_some hfind)).symm.trans hl

/-- A program without an origin is laid out up from the base. -/
theorem anchor_of_base (hne : sections ≠ []) (h : anchor sections base = .ok a)
    (hnone : ∀ l ∈ sectionOrder sections, ¬ l.IsOrg)
    (hburn : ∀ l ∈ sectionOrder sections, l.origin? .burn = none) :
  a.below sections = [] ∧ a.origin = base
  := by
  obtain ⟨o, rest, _, habove, ho, _⟩ | ⟨_, _, b, _, _, hfind, hb, _⟩ | ⟨_, _, hbelow, horigin⟩ :=
    anchor_cases hne h
  · apply absurd (NumberedLine.isOrg_of_eq_some ho) (hnone o _)
    rw [← Anchor.below_append_above (anchor_index_lt hne h), habove]
    simp
  · cases (hburn b (List.mem_of_find?_eq_some hfind)).symm.trans hb
  · use hbelow, horigin

end

end Pep10
