import Pep10.Proofs.Layout.Run

/-!
# Lines that leave no trace

A line that takes no bytes and leaves the base of a walk where it is can be left out: everything
else is placed as it was.  Erasing the line from sections and from placements commutes with every
step of a layout, and so with the whole of it.  The one thing that depends on the line is the
position of an anchor after the last line, as a `.BURN` has it.
-/

namespace Pep10

/-- A line that can be placed anywhere, fixes no address, takes no bytes and does not move the
base. -/
structure Weightless (x : NumberedLine) : Prop where
  place : ∀ (pass : Pass) (base : UInt16),
    ∃ d?, pass.place base x = .ok (⟨x, base, base, 0, d?⟩, base)
  origin?_eq_none : ∀ kind, x.origin? kind = none

/-! ### Erasing a line -/

theorem filter_ne_of_notMem {x : NumberedLine} {ls : List NumberedLine} (h : x ∉ ls) :
  ls.filter (· ≠ x) = ls
  := by
  rw [List.filter_eq_self]
  intro l hl
  rw [decide_eq_true_eq]
  rintro rfl
  apply h hl

namespace Traced

variable {α β γ δ : Type} {x : NumberedLine}

/-- Forget the placements of a line, and what the outcome says about it. -/
def erase (x : NumberedLine) (f : α → β) (t : Traced α) : Traced β where
  placements := t.placements.filter (·.line ≠ x)
  outcome := t.outcome.map f

theorem erase_pure (f : α → β) (a : α) :
  (pure a : Traced α).erase x f = pure (f a)
  := rfl

theorem erase_bind {t : Traced α} {f : α → β} {k : γ → δ} {g : α → Traced γ} {g' : β → Traced δ}
    (h : ∀ a, (g a).erase x k = g' (f a)) :
  (t >>= g).erase x k = t.erase x f >>= g'
  := by
  obtain ⟨ps, e | a⟩ := t
  · rfl
  · simp [bind, erase, Except.map, ← h]

end Traced

namespace Section

/-- A section without a line. -/
def erase (x : NumberedLine) (s : Section) : Section :=
  { s with lines := s.lines.filter (· ≠ x) }

theorem erase_of_notMem {x : NumberedLine} {s : Section} (h : x ∉ s.lines) :
  s.erase x = s
  := by
  rw [erase, filter_ne_of_notMem h]

theorem erase_push {x : NumberedLine} {s : Section} (h : x ∉ s.lines) :
  (s.push x).erase x = s
  := by
  conv_rhs => rw [← erase_of_notMem h]
  simp [erase, push, List.filter_append]

end Section

namespace Progress

variable {x : NumberedLine}

/-- What has been laid out, without a line. -/
def erase (x : NumberedLine) (p : Progress) : Progress :=
  { p with sections := p.sections.map (·.erase x) }

theorem lines_erase (p : Progress) (index : Nat) :
  (p.erase x).lines index = (p.lines index).filter (· ≠ x)
  := lines_map (fun _ => rfl) rfl p index

theorem erase_setBounds (p : Progress) (index : Nat) (bounds : Bounds) :
  (p.setBounds index bounds).erase x = (p.erase x).setBounds index bounds
  := by
  rw [erase, map_setBounds fun _ => rfl]
  rfl

end Progress

/-! ### Walks without the line -/

section

variable {x : NumberedLine} {ps : List Placement}

/-- What placements of a line without bytes do not matter to. -/
theorem entries_filter (h : ∀ p ∈ ps, p.line = x → p.size = 0) :
  (ps.filter (·.line ≠ x)).filterMap Placement.entry? = ps.filterMap Placement.entry?
  := by
  rw [List.filterMap_filter]
  apply List.filterMap_congr
  intro p hp
  by_cases hline : p.line = x
  · simp [hline, Placement.entry?, h p hp hline]
  · simp [hline]

theorem find?_size_filter (h : ∀ p ∈ ps, p.line = x → p.size = 0) :
  (ps.filter (·.line ≠ x)).find? (·.size ≠ 0) = ps.find? (·.size ≠ 0)
  := by
  rw [← List.head?_filter, ← List.head?_filter, List.filter_filter]
  congr 1
  apply List.filter_congr
  intro p hp
  by_cases hline : p.line = x
  · simp [h p hp hline]
  · simp [hline]

theorem totalSize_filter (h : ∀ p ∈ ps, p.line = x → p.size = 0) :
  totalSize (ps.filter (·.line ≠ x)) = totalSize ps
  := by
  induction ps with
  | nil => rfl
  | cons p ps ih =>
      rw [List.forall_mem_cons] at h
      by_cases hline : p.line = x
      · rw [List.filter_cons_of_neg (by simpa using hline), ih h.2, totalSize, h.1 hline]
        simp
      · rw [List.filter_cons_of_pos (by simpa using hline), totalSize, ih h.2, totalSize]

end

namespace Weightless

variable {x : NumberedLine}

/-- Placements of a weightless line take no bytes. -/
theorem size_eq_zero (hx : Weightless x) {pass : Pass} {next : UInt16} {p : Placement}
    (h : pass.place p.base p.line = .ok (p, next)) (hp : p.line = x) :
  p.size = 0
  := by
  obtain ⟨d?, hplace⟩ := hx.place pass p.base
  rw [hp, hplace] at h
  obtain ⟨hplaced, -⟩ := Prod.mk.inj (Except.ok.inj h)
  apply (congrArg Placement.size hplaced).symm

theorem erase_visit (hx : Weightless x) (pass : Pass) (base : UInt16) (ls : List NumberedLine) :
  (pass.visit base ls).erase x id = pass.visit base (ls.filter (· ≠ x))
  := by
  induction ls generalizing base with
  | nil => rfl
  | cons l ls ih =>
      by_cases hl : l = x
      · subst hl
        obtain ⟨d?, hplace⟩ := hx.place pass base
        rw [List.filter_cons_of_neg (by simp), ← ih, Pass.visit, hplace]
        simp [Traced.erase]
      · rw [List.filter_cons_of_pos (by simpa using hl), Pass.visit, Pass.visit]
        cases hplace : pass.place base l with
        | error e => rfl
        | ok placed =>
            obtain ⟨p, next⟩ := placed
            have hline : p.line ≠ x := by
              rw [Pass.place_line hplace]
              apply hl
            simp only [← ih]
            simp [Traced.erase, hline]

theorem erase_walk (hx : Weightless x) (pass : Pass) (base : UInt16) (ls : List NumberedLine) :
  (pass.walk base ls).erase x id = pass.walk base (ls.filter (· ≠ x))
  := by
  have horder : pass.direction.order (ls.filter (· ≠ x))
      = (pass.direction.order ls).filter (· ≠ x) := by
    cases pass.direction with
    | forward => rfl
    | backward => apply List.filter_reverse.symm
  rw [Pass.walk, Pass.walk, horder, ← hx.erase_visit]
  cases hvisit : (pass.visit base (pass.direction.order ls)).outcome with
  | error e => simp [Traced.erase, hvisit, Except.map]
  | ok exit =>
      have hsize : ∀ p ∈ (pass.visit base (pass.direction.order ls)).placements,
          p.line = x → p.size = 0 := by
        intro p hp
        obtain ⟨next, hplace⟩ := Pass.exists_place_of_mem_visit hvisit p hp
        apply hx.size_eq_zero hplace
      simp only [Traced.erase, hvisit, Except.map, id, find?_size_filter hsize,
        totalSize_filter hsize]

/-! ### Steps without the line -/

variable {owner : TableId}

theorem erase_step_walk (hx : Weightless x) (p : Progress) (index : Nat) (direction : Direction) :
  (p.step owner (.walk index direction)).erase x (·.erase x)
    = (p.erase x).step owner (.walk index direction)
  := by
  cases direction with
  | forward =>
      rw [Progress.step, Progress.step, Progress.lines_erase, ← hx.erase_walk]
      apply Traced.erase_bind
      intro w
      rw [Traced.erase_pure, id, ← Progress.erase_setBounds]
      rfl
  | backward =>
      rw [Progress.step, Progress.step, Progress.lines_erase, ← hx.erase_walk]
      apply Traced.erase_bind
      intro w
      rw [Traced.erase_pure, id, ← Progress.erase_setBounds]
      rfl

/-- The first step, with the line on either side of the anchor. -/
theorem erase_step_anchor (hx : Weightless x) (owner : TableId) (p : Progress)
    {index split split' : Nat} (origin : UInt16)
    (htake : ((p.lines index).take split').filter (· ≠ x) = ((p.erase x).lines index).take split)
    (hdrop : ((p.lines index).drop split').filter (· ≠ x) = ((p.erase x).lines index).drop split) :
  (p.step owner (.anchor index split' origin)).erase x (·.erase x)
    = (p.erase x).step owner (.anchor index split origin)
  := by
  rw [Progress.step, Progress.step, ← htake, ← hdrop, ← hx.erase_walk, ← hx.erase_walk]
  apply Traced.erase_bind
  intro before
  apply Traced.erase_bind
  intro after
  rw [Traced.erase_pure, id, id, ← Progress.erase_setBounds]
  rfl

theorem erase_foldlM (hx : Weightless x) {steps : List Step}
    (hsteps : ∀ s ∈ steps, ∃ index direction, s = .walk index direction) (p : Progress) :
  (steps.foldlM (Progress.step owner) p).erase x (·.erase x)
    = steps.foldlM (Progress.step owner) (p.erase x)
  := by
  induction steps generalizing p with
  | nil => rfl
  | cons s steps ih =>
      rw [List.forall_mem_cons] at hsteps
      obtain ⟨⟨index, direction, rfl⟩, hsteps⟩ := hsteps
      rw [List.foldlM_cons, List.foldlM_cons, ← hx.erase_step_walk]
      apply Traced.erase_bind
      apply ih hsteps

end Weightless

/-! ### A line at the end of a section -/

section

variable {x : NumberedLine} {sections : List Section} {k : Nat}

theorem linesAt_modify_push (sections : List Section) (k : Nat) (x : NumberedLine)
    {index : Nat} (hindex : index < sections.length) :
  linesAt (sections.modify k (·.push x)) index
    = linesAt sections index ++ if k = index then [x] else []
  := by
  rw [linesAt, linesAt, List.getElem?_modify, List.getElem?_eq_getElem hindex]
  by_cases h : k = index
  · simp [h, Section.push]
  · simp [h]

theorem map_erase_modify_push (hx : x ∉ sectionOrder sections) :
  (sections.modify k (·.push x)).map (·.erase x) = sections
  := by
  apply List.ext_getElem?
  intro i
  rw [List.getElem?_map, List.getElem?_modify]
  cases hi : sections[i]? with
  | none => rfl
  | some s =>
      have hs : x ∉ s.lines := by
        intro hmem
        apply hx
        apply List.mem_flatMap.mpr ⟨s, List.mem_of_getElem? hi, hmem⟩
      by_cases h : k = i
      · simp [h, Section.erase_push hs]
      · simp [h, Section.erase_of_notMem hs]

theorem findSome?_zipIdx_modify {α β : Type} {f : α × Nat → Option β} {g : α → α}
    (h : ∀ a i, f (g a, i) = f (a, i)) (xs : List α) (k n : Nat) :
  ((xs.modify k g).zipIdx n).findSome? f = (xs.zipIdx n).findSome? f
  := by
  induction xs generalizing k n with
  | nil => simp
  | cons a xs ih =>
      cases k with
      | zero => simp [List.zipIdx_cons, List.findSome?_cons, h]
      | succ k => simp [List.zipIdx_cons, List.findSome?_cons, ih]

/-- A line at the end of a section comes after the origins of the section. -/
theorem firstOrigin?_modify_push {kind : OriginKind} (hx : x.origin? kind = none) :
  firstOrigin? kind (sections.modify k (·.push x)) = firstOrigin? kind sections
  := by
  rw [firstOrigin?, firstOrigin?]
  apply findSome?_zipIdx_modify
  intro s i
  simp [Section.push, List.zipIdx_append, List.findSome?_append, hx]

theorem filter_append_of_notMem {ls rest : List NumberedLine} (hls : x ∉ ls)
    (hrest : ∀ l ∈ rest, l = x) :
  (ls ++ rest).filter (· ≠ x) = ls
  := by
  rw [List.filter_append, filter_ne_of_notMem hls, List.filter_eq_nil_iff.mpr, List.append_nil]
  simpa using hrest

/-- A split among some lines stays where it is when a line comes after them. -/
theorem filter_split_of_le {ls rest : List NumberedLine} (hls : x ∉ ls) (hrest : ∀ l ∈ rest, l = x)
    {split : Nat} (hsplit : split ≤ ls.length) :
  ((ls ++ rest).take split).filter (· ≠ x) = ls.take split
    ∧ ((ls ++ rest).drop split).filter (· ≠ x) = ls.drop split
  := by
  rw [List.take_append_of_le_length hsplit, List.drop_append_of_le_length hsplit]
  constructor
  · apply filter_ne_of_notMem (fun h => hls (List.mem_of_mem_take h))
  · apply filter_append_of_notMem (fun h => hls (List.mem_of_mem_drop h)) hrest

theorem length_linesAt_last (sections : List Section) :
  (sections.getLast?.map (·.lines.length)).getD 0 = (linesAt sections (sections.length - 1)).length
  := by
  rw [linesAt, List.getLast?_eq_getElem?]
  cases sections[sections.length - 1]? with
  | none => rfl
  | some s => rfl

/-- One more weightless line at the end of a section moves the anchor only if it is the end of the
program that the anchor stands at. -/
theorem anchor_modify_push (hx : Weightless x) (hfresh : x ∉ sectionOrder sections)
    (hne : sections ≠ []) {base : UInt16} {a : Anchor} (ha : anchor sections base = .ok a) :
  ∃ split, anchor (sections.modify k (·.push x)) base = .ok { a with split }
    ∧ ((linesAt (sections.modify k (·.push x)) a.index).take split).filter (· ≠ x)
      = (linesAt sections a.index).take a.split
    ∧ ((linesAt (sections.modify k (·.push x)) a.index).drop split).filter (· ≠ x)
      = (linesAt sections a.index).drop a.split
  := by
  have hindex := anchor_index_lt hne ha
  have hls : x ∉ linesAt sections a.index := by
    intro hmem
    rw [linesAt, List.getElem?_eq_getElem hindex] at hmem
    apply hfresh (List.mem_flatMap.mpr ⟨_, List.getElem_mem hindex, hmem⟩)
  have hrest : ∀ l ∈ (if k = a.index then [x] else []), l = x := by
    split
    · simp
    · simp
  have hpushed := linesAt_modify_push sections k x hindex
  rw [anchor] at ha
  rw [anchor, firstOrigin?_modify_push (hx.origin?_eq_none .org),
    firstOrigin?_modify_push (hx.origin?_eq_none .burn)]
  split at ha
  · next site hsite =>
    -- the line comes after the `.ORG` of its section, if there is one
    obtain ⟨origin, horigin, ha⟩ := Except.bind_eq_ok_iff.mp ha
    cases ha
    obtain ⟨before, s, after, pre, l, post, rfl, hbefore, hlines, hpre, -⟩ :=
      firstOrigin?_eq_some hsite
    have hle : site.position ≤ (linesAt (before ++ s :: after) site.index).length := by
      rw [← hbefore, linesAt_append_cons, hlines, ← hpre]
      simp
    use site.position
    rw [horigin, hpushed]
    use rfl
    apply filter_split_of_le hls hrest hle
  · split at ha
    · next site hsite =>
      -- the anchor is after all lines of the last section
      obtain ⟨burn, hburn, ha⟩ := Except.bind_eq_ok_iff.mp ha
      cases ha
      use (linesAt (sections.modify k (·.push x)) (sections.length - 1)).length
      rw [hburn, length_linesAt_last, length_linesAt_last, List.length_modify, hpushed]
      refine ⟨rfl, ?_, ?_⟩
      · rw [List.take_length, List.take_length]
        apply filter_append_of_notMem hls hrest
      · rw [List.drop_length, List.drop_length, List.filter_nil]
    · cases ha
      use 0
      rw [hpushed]
      use rfl
      apply filter_split_of_le hls hrest (Nat.zero_le _)

/-- One more weightless line at the end of a section leaves the layout of the others as it was. -/
theorem erase_assign_modify_push (hx : Weightless x) (hfresh : x ∉ sectionOrder sections)
    (hne : sections ≠ []) {owner : TableId} {base : UInt16} {laid : List Section}
    (h : (assign owner sections base).outcome = .ok laid) :
  (assign owner (sections.modify k (·.push x)) base).erase x (·.map (·.erase x))
    = assign owner sections base
  := by
  obtain ⟨a, ha⟩ := exists_anchor_of_assign hne h
  obtain ⟨split, ha', htake, hdrop⟩ := anchor_modify_push (k := k) hx hfresh hne ha
  have hne' : sections.modify k (·.push x) ≠ [] := by
    rw [← List.length_pos_iff, List.length_modify]
    apply List.length_pos_of_ne_nil hne
  have herase : Progress.erase x
      { sections := sections.modify k (·.push x), backward := base, forward := base }
      = { sections, backward := base, forward := base } := by
    rw [Progress.erase, map_erase_modify_push hfresh]
  have hstart := hx.erase_step_anchor owner
    { sections := sections.modify k (·.push x), backward := base, forward := base } a.origin
    (by rw [herase]; apply htake) (by rw [herase]; apply hdrop)
  rw [herase] at hstart
  have hsteps : ∀ s ∈ backwardBelow a.index ++ forwardFrom (a.index + 1) sections.length,
      ∃ index direction, s = .walk index direction := by
    rw [List.forall_mem_append, backwardBelow, forwardFrom, List.forall_mem_map,
      List.forall_mem_map]
    exact ⟨fun i _ => ⟨i, .backward, rfl⟩, fun i _ => ⟨i, .forward, rfl⟩⟩
  rw [assign_eq_of_anchor hne ha, assign_eq_of_anchor hne' ha', List.length_modify, Anchor.steps,
    Anchor.steps, List.foldlM_cons, List.foldlM_cons, ← hstart,
    ← Traced.erase_bind (hx.erase_foldlM hsteps)]
  apply Traced.erase_bind
  intro p
  rfl

end

end Pep10
