import Pep10.Layout.Assign
import Pep10.Proofs.Layout.Schedule

/-!
# Carrying out a schedule

The sections laid out so far are always neighbours, with the anchor among them.  A backward step
adds the section before them, a forward step the one after them.  What is kept at every step is
written down as a frontier: the placements of the lines before the anchor tile up to its origin,
those of the lines after it tile from there, and each section has the bounds of its own walk.
-/

namespace Pep10

/-- A section as it is before it is laid out. -/
def Section.unplaced (s : Section) : Section :=
  { s with bounds := {} }

/-- The placements of the lines of the section `index`, in their order, when sections are laid out
from an anchor, and the bounds that come with them.  An `.ORG` is never walked backward. -/
inductive Section.LaidOutFrom (owner : TableId) (a : Anchor) (index : Nat) (s : Section) :
    List Placement → Prop
  | forward {base : UInt16} {w : Walk}
      (hwalk : (Pass.walk ⟨owner, index, .forward⟩ base s.lines).outcome = .ok w)
      (hbounds : s.bounds = w.forwardBounds) (hindex : a.index < index) :
      LaidOutFrom owner a index s (Pass.laid ⟨owner, index, .forward⟩ base s.lines)
  | backward {base : UInt16} {w : Walk}
      (hwalk : (Pass.walk ⟨owner, index, .backward⟩ base s.lines).outcome = .ok w)
      (hbounds : s.bounds = w.backwardBounds) (horg : ∀ l ∈ s.lines, ¬ l.IsOrg)
      (hindex : index < a.index) :
      LaidOutFrom owner a index s (Pass.laid ⟨owner, index, .backward⟩ base s.lines)
  | anchor {before after : Walk}
      (hbefore : (Pass.walk ⟨owner, index, .backward⟩ (a.origin - 1)
        (s.lines.take a.split)).outcome = .ok before)
      (hafter : (Pass.walk ⟨owner, index, .forward⟩ a.origin
        (s.lines.drop a.split)).outcome = .ok after)
      (hbounds : s.bounds = before.anchorBounds after)
      (horg : ∀ l ∈ s.lines.take a.split, ¬ l.IsOrg) (hindex : index = a.index) :
      LaidOutFrom owner a index s
        (Pass.laid ⟨owner, index, .backward⟩ (a.origin - 1) (s.lines.take a.split)
          ++ Pass.laid ⟨owner, index, .forward⟩ a.origin (s.lines.drop a.split))

/-- A section that is laid out from some anchor. -/
def Section.LaidOut (owner : TableId) (index : Nat) (s : Section) (ps : List Placement) : Prop :=
  ∃ a, s.LaidOutFrom owner a index ps

namespace Section.LaidOut

variable {owner : TableId} {index : Nat} {s : Section} {ps : List Placement}

theorem lines (h : s.LaidOut owner index ps) :
  ps.map (·.line) = s.lines
  := by
  obtain ⟨a, h⟩ := h
  cases h with
  | forward hwalk _ => apply Pass.laid_lines hwalk
  | backward hwalk _ => apply Pass.laid_lines hwalk
  | anchor hbefore hafter _ =>
      rw [List.map_append, Pass.laid_lines hbefore, Pass.laid_lines hafter,
        List.take_append_drop]

/-- The size of a section is that of its lines. -/
theorem byteCount (h : s.LaidOut owner index ps) :
  s.bounds.byteCount = totalSize ps
  := by
  obtain ⟨a, h⟩ := h
  cases h with
  | forward hwalk hbounds =>
      rw [hbounds]
      apply Pass.walk_bytes hwalk
  | backward hwalk hbounds =>
      rw [hbounds]
      apply Pass.walk_bytes hwalk
  | anchor hbefore hafter hbounds =>
      rw [hbounds, totalSize_append, ← Pass.walk_bytes hbefore, ← Pass.walk_bytes hafter]
      rfl

end Section.LaidOut

/-! ### Steps -/

namespace Progress

variable {owner : TableId} {p p' : Progress}

@[simp]
theorem unplaced_setBounds (p : Progress) (index : Nat) (bounds : Bounds) :
  (p.setBounds index bounds).sections.map Section.unplaced = p.sections.map Section.unplaced
  := by
  apply List.ext_getElem?
  intro i
  simp only [setBounds, List.getElem?_map, List.getElem?_modify]
  cases p.sections[i]? with
  | none => rfl
  | some s =>
      by_cases h : index = i
      · simp [h, Section.unplaced]
      · simp [h]

/-- The lines of sections that have been changed. -/
theorem lines_map {f : Section → Section} {g : List NumberedLine → List NumberedLine}
    (hf : ∀ s, (f s).lines = g s.lines) (hg : g [] = []) (p : Progress) (index : Nat) :
  lines { p with sections := p.sections.map f } index = g (p.lines index)
  := by
  rw [lines, lines, List.getElem?_map]
  cases p.sections[index]? with
  | none => apply hg.symm
  | some s => apply hf

/-- Sections can be changed before or after their bounds are noted. -/
theorem map_setBounds {f : Section → Section} {bounds : Bounds}
    (hf : ∀ s, f { s with bounds } = { f s with bounds }) (p : Progress) (index : Nat) :
  (p.setBounds index bounds).sections.map f
    = (setBounds { p with sections := p.sections.map f } index bounds).sections
  := by
  apply List.ext_getElem?
  intro i
  simp only [setBounds, List.getElem?_map, List.getElem?_modify]
  cases p.sections[i]? with
  | none => rfl
  | some s =>
      by_cases h : index = i
      · simp [h, hf]
      · simp [h]

theorem getElem?_setBounds_self (p : Progress) (index : Nat) (bounds : Bounds) :
  (p.setBounds index bounds).sections[index]?
    = (p.sections[index]?).map ({ · with bounds })
  := by
  simp [setBounds]

theorem getElem?_setBounds_of_ne (p : Progress) {index i : Nat} (bounds : Bounds)
    (h : i ≠ index) :
  (p.setBounds index bounds).sections[i]? = p.sections[i]?
  := by
  simp [setBounds, h.symm]

/-- Everything that the first step can do. -/
theorem step_anchor_eq_ok {index split : Nat} {origin : UInt16}
    (h : (p.step owner (.anchor index split origin)).outcome = .ok p') :
  ∃ before after,
    (Pass.walk ⟨owner, index, .backward⟩ (origin - 1)
      ((p.lines index).take split)).outcome = .ok before
    ∧ (Pass.walk ⟨owner, index, .forward⟩ origin
      ((p.lines index).drop split)).outcome = .ok after
    ∧ p' = { p.setBounds index (before.anchorBounds after) with
        backward := before.exit
        forward := after.exit }
    ∧ (p.step owner (.anchor index split origin)).placements
      = (Pass.walk ⟨owner, index, .backward⟩ (origin - 1) ((p.lines index).take split)).placements
        ++ (Pass.walk ⟨owner, index, .forward⟩ origin ((p.lines index).drop split)).placements
  := by
  rw [step] at h ⊢
  obtain ⟨before, hbefore, h⟩ := Traced.outcome_bind_eq_ok_iff.mp h
  obtain ⟨after, hafter, h⟩ := Traced.outcome_bind_eq_ok_iff.mp h
  cases h
  use before, after, hbefore, hafter, rfl
  rw [Traced.placements_bind hbefore, Traced.placements_bind hafter, Traced.placements_pure,
    List.append_nil]

/-- Everything that a forward step can do. -/
theorem step_forward_eq_ok {index : Nat}
    (h : (p.step owner (.walk index .forward)).outcome = .ok p') :
  ∃ w, (Pass.walk ⟨owner, index, .forward⟩ p.forward (p.lines index)).outcome = .ok w
    ∧ p' = { p.setBounds index w.forwardBounds with forward := w.exit }
    ∧ (p.step owner (.walk index .forward)).placements
      = (Pass.walk ⟨owner, index, .forward⟩ p.forward (p.lines index)).placements
  := by
  rw [step] at h ⊢
  obtain ⟨w, hwalk, h⟩ := Traced.outcome_bind_eq_ok_iff.mp h
  cases h
  use w, hwalk, rfl
  rw [Traced.placements_bind hwalk, Traced.placements_pure, List.append_nil]

/-- Everything that a backward step can do. -/
theorem step_backward_eq_ok {index : Nat}
    (h : (p.step owner (.walk index .backward)).outcome = .ok p') :
  ∃ w, (Pass.walk ⟨owner, index, .backward⟩ p.backward (p.lines index)).outcome = .ok w
    ∧ p' = { p.setBounds index w.backwardBounds with backward := w.exit }
    ∧ (p.step owner (.walk index .backward)).placements
      = (Pass.walk ⟨owner, index, .backward⟩ p.backward (p.lines index)).placements
  := by
  rw [step] at h ⊢
  obtain ⟨w, hwalk, h⟩ := Traced.outcome_bind_eq_ok_iff.mp h
  cases h
  use w, hwalk, rfl
  rw [Traced.placements_bind hwalk, Traced.placements_pure, List.append_nil]

/-! ### Runs -/

theorem backwardBelow_zero :
  backwardBelow 0 = []
  := rfl

theorem backwardBelow_succ (lo : Nat) :
  backwardBelow (lo + 1) = .walk lo .backward :: backwardBelow lo
  := by
  simp [backwardBelow, List.range_succ]

theorem forwardFrom_of_lt {hi n : Nat} (h : hi < n) :
  forwardFrom hi n = .walk hi .forward :: forwardFrom (hi + 1) n
  := by
  have hlength : n - hi = n - (hi + 1) + 1 := by omega
  rw [forwardFrom, forwardFrom, hlength, List.range'_succ, List.map_cons]

theorem forwardFrom_self (n : Nat) :
  forwardFrom n n = []
  := by
  simp [forwardFrom]

/-- What backward and forward steps keep, a whole run keeps. -/
theorem run_induction {n : Nat} {motive : Nat → Nat → Progress → List Placement → Prop}
    (backward : ∀ {lo hi p ps p'}, motive (lo + 1) hi p ps →
      (step owner p (.walk lo .backward)).outcome = .ok p' →
      motive lo hi p' (ps ++ (step owner p (.walk lo .backward)).placements))
    (forward : ∀ {lo hi p ps p'}, hi < n → motive lo hi p ps →
      (step owner p (.walk hi .forward)).outcome = .ok p' →
      motive lo (hi + 1) p' (ps ++ (step owner p (.walk hi .forward)).placements)) :
    ∀ {lo hi : Nat} {p q : Progress} {ps : List Placement}, hi ≤ n → motive lo hi p ps →
      ((backwardBelow lo ++ forwardFrom hi n).foldlM (step owner) p).outcome = .ok q →
      motive 0 n q
        (ps ++ ((backwardBelow lo ++ forwardFrom hi n).foldlM (step owner) p).placements)
  | lo + 1, hi, p, q, ps, hhi, hp, h => by
      rw [backwardBelow_succ, List.cons_append, List.foldlM_cons] at h ⊢
      obtain ⟨p', hstep, h⟩ := Traced.outcome_bind_eq_ok_iff.mp h
      rw [Traced.placements_bind hstep, ← List.append_assoc]
      apply run_induction backward forward hhi (backward hp hstep) h
  | 0, hi, p, q, ps, hhi, hp, h => by
      obtain rfl | hlt := Nat.eq_or_lt_of_le hhi
      · rw [forwardFrom_self] at h ⊢
        cases h
        simpa [backwardBelow] using hp
      · rw [backwardBelow_zero, List.nil_append, forwardFrom_of_lt hlt, List.foldlM_cons] at h ⊢
        obtain ⟨p', hstep, h⟩ := Traced.outcome_bind_eq_ok_iff.mp h
        rw [Traced.placements_bind hstep, ← List.append_assoc]
        apply run_induction backward forward hlt (forward hlt hp hstep) h
  termination_by lo hi => (lo, n - hi)

end Progress

/-! ### Frontiers -/

/-- The sections from `lo` to before `hi` have been laid out from an anchor, with `below` the
placements of their lines before the anchor and `above` those of the others, each in the order of
the lines. -/
structure Frontier (owner : TableId) (sections : List Section) (a : Anchor) (lo hi : Nat)
    (p : Progress) (ps below above : List Placement) : Prop where
  unplaced_eq : p.sections.map Section.unplaced = sections.map Section.unplaced
  laidOut : ∀ i s, lo ≤ i → i < hi → p.sections[i]? = some s →
    ∃ qs, s.LaidOutFrom owner a i qs ∧ qs ⊆ ps
  perm : ps.Perm (below ++ above)
  below_lines : below.map (·.line)
    = sectionOrder ((sections.take a.index).drop lo) ++ (linesAt sections a.index).take a.split
  above_lines : above.map (·.line)
    = (linesAt sections a.index).drop a.split
      ++ sectionOrder ((sections.take hi).drop (a.index + 1))
  below_tiled : Tiled (p.backward + 1) below a.origin
  above_tiled : Tiled a.origin above p.forward
  below_bases : BasesBackward below a.origin
  above_bases : BasesForward a.origin above
  below_placed : ∀ q ∈ below, ∃ i next,
    Pass.place ⟨owner, i, .backward⟩ q.base q.line = .ok (q, next)
  above_placed : ∀ q ∈ above, ∃ i next,
    Pass.place ⟨owner, i, .forward⟩ q.base q.line = .ok (q, next)

namespace Frontier

variable {owner : TableId} {sections : List Section} {a : Anchor} {lo hi : Nat}
  {p p' : Progress} {ps below above : List Placement}

theorem lines_eq (h : p.sections.map Section.unplaced = sections.map Section.unplaced)
    (i : Nat) :
  p.lines i = linesAt sections i
  := by
  have hlines : p.sections.map (·.lines) = sections.map (·.lines) := by
    simpa [Function.comp_def, Section.unplaced]
      using congrArg (List.map (fun s : Section => s.lines)) h
  rw [Progress.lines, linesAt, ← List.getElem?_map, hlines, List.getElem?_map]

/-- Laying out one more section leaves those laid out before as they are. -/
theorem laidOut_setBounds {rs : List Placement} {index : Nat} {bounds : Bounds}
    (hold : ∀ i s, lo ≤ i → i < hi → p.sections[i]? = some s →
      ∃ qs, s.LaidOutFrom owner a i qs ∧ qs ⊆ ps)
    (hnew : ∀ s, (p.setBounds index bounds).sections[index]? = some s →
      ∃ qs, s.LaidOutFrom owner a index qs ∧ qs ⊆ rs)
    {i : Nat} {s : Section} (hi : lo ≤ i ∧ i < hi ∨ i = index)
    (hs : (p.setBounds index bounds).sections[i]? = some s) :
  ∃ qs, s.LaidOutFrom owner a i qs ∧ qs ⊆ ps ++ rs
  := by
  by_cases h : i = index
  · subst h
    obtain ⟨qs, hqs, hsub⟩ := hnew s hs
    use qs, hqs, List.subset_append_of_subset_right _ hsub
  · rw [p.getElem?_setBounds_of_ne bounds h] at hs
    obtain ⟨hlo, hhi⟩ := hi.resolve_right h
    obtain ⟨qs, hqs, hsub⟩ := hold i s hlo hhi hs
    use qs, hqs, List.subset_append_of_subset_left _ hsub

/-- The section whose bounds are noted. -/
theorem exists_of_setBounds {index : Nat} {bounds : Bounds} {s : Section}
    (hs : (p.setBounds index bounds).sections[index]? = some s) :
  s.lines = p.lines index ∧ s.bounds = bounds
  := by
  rw [Progress.getElem?_setBounds_self] at hs
  obtain ⟨t, ht, rfl⟩ := Option.map_eq_some_iff.mp hs
  simp [Progress.lines, ht]

/-- The first step lays out the section of the anchor. -/
theorem start {base : UInt16} (horg : ∀ l ∈ a.below sections, ¬ l.IsOrg)
    (h : (Progress.step owner { sections, backward := base, forward := base }
      (.anchor a.index a.split a.origin)).outcome = .ok p) :
  ∃ below above, Frontier owner sections a a.index (a.index + 1) p
    (Progress.step owner { sections, backward := base, forward := base }
      (.anchor a.index a.split a.origin)).placements below above
  := by
  obtain ⟨before, after, hbefore, hafter, rfl, hplacements⟩ := Progress.step_anchor_eq_ok h
  rw [hplacements]
  rw [Anchor.below, List.forall_mem_append] at horg
  have hbelow := Pass.walk_backward_tiled rfl horg.2 hbefore
  have habove := Pass.walk_forward_tiled rfl hafter
  rw [UInt16.sub_add_cancel] at hbelow
  refine ⟨_, _, {
    unplaced_eq := Progress.unplaced_setBounds _ _ _
    laidOut := ?_
    perm := ((Pass.laid_perm _ _ _).append (Pass.laid_perm _ _ _)).symm
    below_lines := ?_
    above_lines := ?_
    below_tiled := hbelow.1
    above_tiled := habove.1
    below_bases := hbelow.2
    above_bases := habove.2
    below_placed := fun q hq => ⟨_, Pass.exists_place_of_mem_laid hbefore hq⟩
    above_placed := fun q hq => ⟨_, Pass.exists_place_of_mem_laid hafter hq⟩ }⟩
  · intro i s hlo hhi hs
    obtain rfl : i = a.index := by omega
    obtain ⟨hlines, hbounds⟩ := exists_of_setBounds hs
    rw [← hlines] at hbefore hafter ⊢
    refine ⟨_, .anchor hbefore hafter hbounds (hlines ▸ horg.2) rfl, ?_⟩
    apply List.append_subset.mpr
    constructor
    · apply List.Subset.trans (Pass.laid_perm _ _ _).subset (List.subset_append_left _ _)
    · apply List.Subset.trans (Pass.laid_perm _ _ _).subset (List.subset_append_right _ _)
  · rw [Pass.laid_lines hbefore, List.drop_take_self]
    rfl
  · rw [Pass.laid_lines hafter, List.drop_take_self, sectionOrder, List.flatMap_nil,
      List.append_nil]
    rfl

/-- A backward step lays out the section before the frontier. -/
theorem backward (h : Frontier owner sections a (lo + 1) hi p ps below above)
    (hlt : lo < a.index) (hindex : a.index < sections.length)
    (horg : ∀ l ∈ a.below sections, ¬ l.IsOrg)
    (hstep : (p.step owner (.walk lo .backward)).outcome = .ok p') :
  ∃ qs, Frontier owner sections a lo hi p'
    (ps ++ (p.step owner (.walk lo .backward)).placements) (qs ++ below) above
  := by
  obtain ⟨w, hwalk, rfl, hplacements⟩ := Progress.step_backward_eq_ok hstep
  rw [hplacements]
  have hlines := lines_eq h.unplaced_eq lo
  have hfirst : sectionOrder ((sections.take a.index).drop lo)
      = linesAt sections lo ++ sectionOrder ((sections.take a.index).drop (lo + 1)) := by
    have hlen : lo < (sections.take a.index).length := by
      rw [List.length_take]
      omega
    rw [List.drop_eq_getElem_cons hlen, sectionOrder, List.flatMap_cons, List.getElem_take,
      linesAt, List.getElem?_eq_getElem (by omega)]
    rfl
  have hnoorg : ∀ l ∈ p.lines lo, ¬ l.IsOrg := by
    intro l hl
    apply horg l
    have hmem : l ∈ sectionOrder ((sections.take a.index).drop lo) := by
      rw [hfirst, ← hlines]
      apply List.mem_append_left _ hl
    obtain ⟨s, hs, hl⟩ := List.mem_flatMap.mp hmem
    apply List.mem_append_left
    apply List.mem_flatMap.mpr ⟨s, List.mem_of_mem_drop hs, hl⟩
  have htiled := Pass.walk_backward_tiled rfl hnoorg hwalk
  refine ⟨Pass.laid ⟨owner, lo, .backward⟩ p.backward (p.lines lo), {
    unplaced_eq := (Progress.unplaced_setBounds _ _ _).trans h.unplaced_eq
    laidOut := ?_
    perm := ?_
    below_lines := ?_
    above_lines := h.above_lines
    below_tiled := htiled.1.append h.below_tiled
    above_tiled := h.above_tiled
    below_bases := htiled.2.append h.below_tiled h.below_bases
    above_bases := h.above_bases
    below_placed := ?_
    above_placed := h.above_placed }⟩
  · intro i s hi hi' hs
    apply laidOut_setBounds h.laidOut _ (by omega) hs
    intro t ht
    obtain ⟨hlines, hbounds⟩ := exists_of_setBounds ht
    rw [← hlines] at hwalk ⊢
    refine ⟨_, .backward hwalk hbounds (hlines ▸ hnoorg) hlt, ?_⟩
    apply (Pass.laid_perm _ _ _).subset
  · rw [List.append_assoc]
    apply (h.perm.append (Pass.laid_perm _ _ _).symm).trans List.perm_append_comm
  · rw [List.map_append, Pass.laid_lines hwalk, h.below_lines, hfirst, hlines, List.append_assoc]
  · rw [List.forall_mem_append]
    use fun q hq => ⟨_, Pass.exists_place_of_mem_laid hwalk hq⟩, h.below_placed

/-- A forward step lays out the section after the frontier. -/
theorem forward (h : Frontier owner sections a lo hi p ps below above)
    (hlt : hi < sections.length) (hindex : a.index < hi)
    (hstep : (p.step owner (.walk hi .forward)).outcome = .ok p') :
  ∃ qs, Frontier owner sections a lo (hi + 1) p'
    (ps ++ (p.step owner (.walk hi .forward)).placements) below (above ++ qs)
  := by
  obtain ⟨w, hwalk, rfl, hplacements⟩ := Progress.step_forward_eq_ok hstep
  rw [hplacements]
  have hlines := lines_eq h.unplaced_eq hi
  have hlast : sectionOrder ((sections.take (hi + 1)).drop (a.index + 1))
      = sectionOrder ((sections.take hi).drop (a.index + 1)) ++ linesAt sections hi := by
    have hlen : a.index + 1 ≤ (sections.take hi).length := by
      rw [List.length_take]
      omega
    rw [List.take_succ_eq_append_getElem hlt, List.drop_append_of_le_length hlen, sectionOrder,
      List.flatMap_append, linesAt, List.getElem?_eq_getElem hlt]
    simp [sectionOrder]
  have htiled := Pass.walk_forward_tiled rfl hwalk
  refine ⟨Pass.laid ⟨owner, hi, .forward⟩ p.forward (p.lines hi), {
    unplaced_eq := (Progress.unplaced_setBounds _ _ _).trans h.unplaced_eq
    laidOut := ?_
    perm := ?_
    below_lines := h.below_lines
    above_lines := ?_
    below_tiled := h.below_tiled
    above_tiled := h.above_tiled.append htiled.1
    below_bases := h.below_bases
    above_bases := h.above_bases.append h.above_tiled htiled.2
    below_placed := h.below_placed
    above_placed := ?_ }⟩
  · intro i s hi hi' hs
    apply laidOut_setBounds h.laidOut _ (by omega) hs
    intro t ht
    obtain ⟨hlines, hbounds⟩ := exists_of_setBounds ht
    rw [← hlines] at hwalk ⊢
    refine ⟨_, .forward hwalk hbounds hindex, ?_⟩
    apply (Pass.laid_perm _ _ _).subset
  · rw [← List.append_assoc]
    apply h.perm.append (Pass.laid_perm _ _ _).symm
  · rw [List.map_append, Pass.laid_lines hwalk, h.above_lines, hlast, hlines, List.append_assoc]
  · rw [List.forall_mem_append]
    use h.above_placed, fun q hq => ⟨_, Pass.exists_place_of_mem_laid hwalk hq⟩

/-- The steps after the first one lay out all sections. -/
theorem run (hindex : a.index < sections.length) (horg : ∀ l ∈ a.below sections, ¬ l.IsOrg)
    (h : Frontier owner sections a a.index (a.index + 1) p ps below above)
    (hrun : ((backwardBelow a.index ++ forwardFrom (a.index + 1) sections.length).foldlM
      (Progress.step owner) p).outcome = .ok p') :
  ∃ below above, Frontier owner sections a 0 sections.length p'
    (ps ++ ((backwardBelow a.index ++ forwardFrom (a.index + 1) sections.length).foldlM
      (Progress.step owner) p).placements) below above
  := by
  refine (Progress.run_induction (motive := fun lo hi q ps =>
    lo ≤ a.index ∧ a.index < hi ∧ ∃ below above,
      Frontier owner sections a lo hi q ps below above) ?_ ?_ hindex ?_ hrun).2.2
  · rintro lo hi q ps q' ⟨hlo, hhi, below, above, hfrontier⟩ hstep
    obtain ⟨qs, hfrontier⟩ := hfrontier.backward hlo hindex horg hstep
    exact ⟨Nat.le_of_succ_le hlo, hhi, qs ++ below, above, hfrontier⟩
  · rintro lo hi q ps q' hlt ⟨hlo, hhi, below, above, hfrontier⟩ hstep
    obtain ⟨qs, hfrontier⟩ := hfrontier.forward hlt hhi hstep
    exact ⟨hlo, Nat.lt_succ_of_lt hhi, below, above ++ qs, hfrontier⟩
  · exact ⟨Nat.le_refl _, Nat.lt_succ_self _, below, above, h⟩

end Frontier

variable {owner : TableId} {sections laid : List Section} {base : UInt16}

theorem assign_eq_of_anchor {a : Anchor} (hne : sections ≠ [])
    (ha : anchor sections base = .ok a) :
  assign owner sections base = (do
    let p ← (a.steps sections.length).foldlM (Progress.step owner)
      { sections, backward := base, forward := base }
    return p.sections)
  := by
  rw [assign, schedule_eq hne, ha]
  rfl

theorem exists_anchor_of_assign (hne : sections ≠ [])
    (h : (assign owner sections base).outcome = .ok laid) :
  ∃ a, anchor sections base = .ok a
  := by
  cases ha : anchor sections base with
  | error e =>
      rw [assign, schedule_eq hne, ha] at h
      cases h
  | ok a => use a

/-- A layout reaches from the first section to the last. -/
theorem assign_frontier (hne : sections ≠ [])
    (h : (assign owner sections base).outcome = .ok laid) :
  ∃ a p below above, anchor sections base = .ok a ∧ p.sections = laid
    ∧ Frontier owner sections a 0 sections.length p (assign owner sections base).placements
      below above
  := by
  obtain ⟨a, ha⟩ := exists_anchor_of_assign hne h
  have hindex := anchor_index_lt hne ha
  have horg := anchor_below_not_org hne ha
  rw [assign_eq_of_anchor hne ha] at h ⊢
  obtain ⟨p, hrun, h⟩ := Traced.outcome_bind_eq_ok_iff.mp h
  cases h
  rw [Traced.placements_bind hrun, Traced.placements_pure, List.append_nil]
  rw [Anchor.steps, List.foldlM_cons] at hrun ⊢
  obtain ⟨q, hstart, hrun⟩ := Traced.outcome_bind_eq_ok_iff.mp hrun
  rw [Traced.placements_bind hstart]
  obtain ⟨_, _, hfrontier⟩ := Frontier.start horg hstart
  obtain ⟨below, above, hfrontier⟩ := hfrontier.run hindex horg hrun
  exact ⟨a, p, below, above, ha, rfl, hfrontier⟩

end Pep10
