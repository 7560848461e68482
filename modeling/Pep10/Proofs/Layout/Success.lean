import Pep10.Proofs.Layout.Run

/-!
# When a layout succeeds

A layout succeeds when its anchor has a value and each line can be placed.  Where lines are placed
does not matter to this, so the steps of a schedule can be looked at one by one.
-/

namespace Pep10

namespace Progress

variable {owner : TableId} {p p' : Progress}

theorem lines_setBounds (p : Progress) (index : Nat) (bounds : Bounds) (i : Nat) :
  (p.setBounds index bounds).lines i = p.lines i
  := by
  apply Frontier.lines_eq
  apply unplaced_setBounds

/-- A step leaves the lines of all sections as they are. -/
theorem lines_step {s : Step} (h : (p.step owner s).outcome = .ok p') (i : Nat) :
  p'.lines i = p.lines i
  := by
  cases s with
  | anchor index split origin =>
      obtain ⟨_, _, _, _, rfl, _⟩ := step_anchor_eq_ok h
      apply lines_setBounds
  | walk index direction =>
      cases direction with
      | forward =>
          obtain ⟨_, _, rfl, _⟩ := step_forward_eq_ok h
          apply lines_setBounds
      | backward =>
          obtain ⟨_, _, rfl, _⟩ := step_backward_eq_ok h
          apply lines_setBounds

theorem step_isOk_iff (owner : TableId) (p : Progress) (s : Step) :
  (∃ p', (p.step owner s).outcome = .ok p') ↔ ∀ l ∈ p.lines s.index, l.line.Placeable
  := by
  cases s with
  | anchor index split origin =>
      have hlines : (∀ l ∈ p.lines index, l.line.Placeable)
          ↔ (∀ l ∈ (p.lines index).take split, l.line.Placeable)
            ∧ ∀ l ∈ (p.lines index).drop split, l.line.Placeable := by
        rw [← List.forall_mem_append, List.take_append_drop]
      rw [Step.index, hlines, ← Pass.walk_isOk_iff ⟨owner, index, .backward⟩ (origin - 1),
        ← Pass.walk_isOk_iff ⟨owner, index, .forward⟩ origin]
      constructor
      · rintro ⟨p', h⟩
        obtain ⟨before, after, hbefore, hafter, _⟩ := step_anchor_eq_ok h
        exact ⟨⟨before, hbefore⟩, ⟨after, hafter⟩⟩
      · rintro ⟨⟨before, hbefore⟩, ⟨after, hafter⟩⟩
        simp only [step, Traced.outcome_bind_eq_ok_iff]
        exact ⟨_, before, hbefore, after, hafter, rfl⟩
  | walk index direction =>
      cases direction with
      | forward =>
          rw [Step.index, ← Pass.walk_isOk_iff ⟨owner, index, .forward⟩ p.forward]
          simp only [step, Traced.outcome_bind_eq_ok_iff]
          constructor
          · rintro ⟨_, w, hwalk, _⟩
            exact ⟨w, hwalk⟩
          · rintro ⟨w, hwalk⟩
            exact ⟨_, w, hwalk, rfl⟩
      | backward =>
          rw [Step.index, ← Pass.walk_isOk_iff ⟨owner, index, .backward⟩ p.backward]
          simp only [step, Traced.outcome_bind_eq_ok_iff]
          constructor
          · rintro ⟨_, w, hwalk, _⟩
            exact ⟨w, hwalk⟩
          · rintro ⟨w, hwalk⟩
            exact ⟨_, w, hwalk, rfl⟩

/-- Steps succeed when each of them does. -/
theorem run_isOk_iff (owner : TableId) (steps : List Step) (p : Progress) :
  (∃ p', (steps.foldlM (step owner) p).outcome = .ok p')
    ↔ ∀ s ∈ steps, ∀ l ∈ p.lines s.index, l.line.Placeable
  := by
  induction steps generalizing p with
  | nil => simp
  | cons s steps ih =>
      simp only [List.foldlM_cons, Traced.outcome_bind_eq_ok_iff, List.forall_mem_cons]
      constructor
      · rintro ⟨q, p', hstep, hrun⟩
        use (step_isOk_iff owner p s).mp ⟨p', hstep⟩
        have hsteps := (ih p').mp ⟨q, hrun⟩
        simpa only [lines_step hstep] using hsteps
      · rintro ⟨hs, hsteps⟩
        obtain ⟨p', hstep⟩ := (step_isOk_iff owner p s).mpr hs
        simp only [← lines_step hstep] at hsteps
        obtain ⟨q, hrun⟩ := (ih p').mpr hsteps
        exact ⟨q, p', hstep, hrun⟩

end Progress

variable {owner : TableId} {sections : List Section} {base : UInt16}

theorem forall_mem_sectionOrder_iff {P : NumberedLine → Prop} :
  (∀ l ∈ sectionOrder sections, P l)
    ↔ ∀ i ∈ List.range sections.length, ∀ l ∈ linesAt sections i, P l
  := by
  simp only [sectionOrder, List.mem_flatMap, List.mem_range, forall_exists_index, and_imp]
  constructor
  · intro h i hi l hl
    rw [linesAt, List.getElem?_eq_getElem hi] at hl
    apply h l _ (List.getElem_mem hi) hl
  · intro h l s hs hl
    obtain ⟨i, hi, rfl⟩ := List.getElem_of_mem hs
    apply h i hi
    rw [linesAt, List.getElem?_eq_getElem hi]
    apply hl

/-- A layout succeeds when its anchor has a value and each line can be placed. -/
theorem assign_isOk_iff (hne : sections ≠ []) :
  (∃ laid, (assign owner sections base).outcome = .ok laid)
    ↔ (∃ a, anchor sections base = .ok a) ∧ ∀ l ∈ sectionOrder sections, l.line.Placeable
  := by
  have hsteps : ∀ a, anchor sections base = .ok a →
      ((∃ laid, (assign owner sections base).outcome = .ok laid)
        ↔ ∀ l ∈ sectionOrder sections, l.line.Placeable) := by
    intro a ha
    have hindex := Anchor.index_steps_perm (anchor_index_lt hne ha)
    have hrun : _ ↔ ∀ s ∈ a.steps sections.length, ∀ l ∈ linesAt sections s.index,
        l.line.Placeable :=
      Progress.run_isOk_iff owner _ { sections, backward := base, forward := base }
    rw [forall_mem_sectionOrder_iff, assign_eq_of_anchor hne ha]
    simp only [← hindex.mem_iff, List.forall_mem_map, ← hrun, Traced.outcome_bind_eq_ok_iff]
    constructor
    · rintro ⟨_, p, hp, _⟩
      exact ⟨p, hp⟩
    · rintro ⟨p, hp⟩
      exact ⟨_, p, hp, rfl⟩
  constructor
  · rintro ⟨laid, hlaid⟩
    obtain ⟨a, ha⟩ := exists_anchor_of_assign hne hlaid
    use ⟨a, ha⟩
    apply (hsteps a ha).mp ⟨laid, hlaid⟩
  · rintro ⟨⟨a, ha⟩, hlines⟩
    apply (hsteps a ha).mpr hlines

theorem exists_anchor_iff (line : LineId) (a : Argument) (f : UInt16 → Anchor) :
  (∃ anchor, (do return f (← originValue line a) : Except AssemblyError Anchor) = .ok anchor)
    ↔ ∃ v, a.constant 2 = .ok (some v)
  := by
  rw [← Pass.originValue_isOk_iff line]
  simp only [Except.bind_eq_ok_iff]
  constructor
  · rintro ⟨_, v, hv, _⟩
    exact ⟨v, hv⟩
  · rintro ⟨v, hv⟩
    exact ⟨_, v, hv, rfl⟩

/-- When every `.ORG` has a value, only the first `.BURN` of a program without them counts. -/
theorem anchor_isOk_iff (hlines : ∀ l ∈ sectionOrder sections, l.line.Placeable) :
  (∃ a, anchor sections base = .ok a)
    ↔ ((∀ l ∈ sectionOrder sections, ¬ l.IsOrg) → ∀ l a,
      (sectionOrder sections).find? (fun l => (l.origin? .burn).isSome) = some l →
      l.origin? .burn = some a → ∃ v, a.constant 2 = .ok (some v))
  := by
  cases horg : firstOrigin? .org sections with
  | some site =>
      obtain ⟨l, hfind, -, hl⟩ := exists_find?_of_firstOrigin? horg
      have hmem := List.mem_of_find?_eq_some hfind
      have hplaceable := hlines l hmem
      rw [Line.Placeable, NumberedLine.origin?_eq_some_iff.mp hl] at hplaceable
      constructor
      · intro _ hnone
        cases hnone l hmem (NumberedLine.isOrg_of_eq_some hl)
      · intro _
        rw [anchor, horg]
        apply (exists_anchor_iff _ _ _).mpr hplaceable
  | none =>
      have hnone : ∀ l ∈ sectionOrder sections, ¬ l.IsOrg := by
        intro l hl
        simp [NumberedLine.IsOrg, firstOrigin?_eq_none_iff.mp horg l hl]
      rw [imp_iff_right hnone]
      cases hburn : firstOrigin? .burn sections with
      | some site =>
          obtain ⟨l, hfind, -, hl⟩ := exists_find?_of_firstOrigin? hburn
          rw [anchor, horg, hburn, hfind]
          apply (exists_anchor_iff _ _ _).trans
          constructor
          · rintro hvalue _ a ⟨⟩ ha
            obtain rfl := Option.some_inj.mp (hl.symm.trans ha)
            apply hvalue
          · intro hvalue
            apply hvalue l site.argument rfl hl
      | none =>
          have hnoburn := firstOrigin?_eq_none_iff.mp hburn
          constructor
          · intro _ l a hfind ha
            cases (hnoburn l (List.mem_of_find?_eq_some hfind)).symm.trans ha
          · intro _
            rw [anchor, horg, hburn]
            exact ⟨_, rfl⟩

end Pep10
