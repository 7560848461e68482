import Pep10.Proofs.Layout.Law

/-!
# The bounds of sections

A section is walked forward, or backward, or, if it has the anchor, backward up to its split and
forward from there.  Each way has its own bounds.  What they have in common is the base: it is the
address of the first line of the section that has bytes.  The low bound is the base of a section
that begins forward and lies below it otherwise, and as long as no `.ORG` breaks the lines that
are walked forward, the bounds are as far apart as the lines are long.
-/

namespace Pep10

/-- The entries of lines in an address table, in the order of the lines. -/
def LineTable.entriesOf (t : LineTable Address) (lines : List NumberedLine) :
    List (LineId × Address) :=
  lines.filterMap fun l => (t.get? l.id).map fun e => (l.id, e)

theorem LineTable.mem_entriesOf_iff {t : LineTable Address} {lines : List NumberedLine}
    {line : LineId} {e : Address} :
  (line, e) ∈ t.entriesOf lines ↔ line ∈ lines.map (·.id) ∧ t.get? line = some e
  := by
  rw [entriesOf, List.mem_filterMap, List.mem_map]
  constructor
  · rintro ⟨l, hl, he⟩
    obtain ⟨e, he, ⟨⟩⟩ := Option.map_eq_some_iff.mp he
    exact ⟨⟨l, hl, rfl⟩, he⟩
  · rintro ⟨⟨l, hl, rfl⟩, he⟩
    exact ⟨l, hl, by rw [he, Option.map_some]⟩

theorem LineTable.entriesOf_sectionOrder (t : LineTable Address) (sections : List Section) :
  t.entriesOf (sectionOrder sections) = sections.flatMap fun s => t.entriesOf s.lines
  := by
  rw [entriesOf, sectionOrder, List.filterMap_flatMap]
  rfl

/-- The entries of lines are those of their placements. -/
theorem Entered.entriesOf_eq {t : LineTable Address} {ps : List Placement} (h : Entered t ps) :
  t.entriesOf (ps.map (·.line)) = ps.filterMap Placement.entry?
  := by
  rw [LineTable.entriesOf, List.filterMap_map]
  apply List.filterMap_congr
  intro p hp
  rw [Function.comp_apply, h.get?_eq p hp, Placement.entry?]
  split
  · rfl
  · rfl

theorem totalSize_eq_zero_iff {ps : List Placement} :
  totalSize ps = 0 ↔ ps.findSome? Placement.entry? = none
  := by
  simp only [totalSize_eq_sum, List.sum_eq_zero_iff_forall_eq_nat, List.forall_mem_map,
    List.findSome?_eq_none_iff, Placement.entry?, ite_eq_left_iff, reduceCtorEq, imp_false, not_not,
    ← UInt16.toNat_inj, UInt16.toNat_zero]

theorem totalSize_ne_zero {ps : List Placement} {x : LineId × Address}
    (h : ps.findSome? Placement.entry? = some x) :
  totalSize ps ≠ 0
  := by
  rw [Ne, totalSize_eq_zero_iff, h]
  apply Option.some_ne_none

/-- The first entry of some placements. -/
theorem findSome?_entry?_eq (ps : List Placement) :
  ps.findSome? Placement.entry?
    = (ps.find? (·.size ≠ 0)).map fun p => (p.line.id, ⟨p.address, p.size⟩)
  := by
  rw [← List.head?_filterMap, entries_eq, List.head?_map, List.head?_filter]

namespace Tiled

variable {c d : UInt16} {ps : List Placement} {x : LineId × Address}

/-- In an unbroken tiling, the first line with bytes lies at the start. -/
theorem address_of_entry (h : Tiled c ps d) (horg : ∀ p ∈ ps, ¬ p.line.IsOrg)
    (hx : ps.findSome? Placement.entry? = some x) :
  x.2.address = c
  := by
  induction ps generalizing c with
  | nil => cases hx
  | cons p ps ih =>
      rw [List.forall_mem_cons] at horg
      obtain ⟨haddress, hrest⟩ := (cons_iff horg.1).mp h
      rw [List.findSome?_cons, Placement.entry?] at hx
      by_cases hsize : p.size = 0
      · rw [if_pos hsize] at hx
        rw [hsize, UInt16.add_zero] at hrest
        apply ih hrest horg.2 hx
      · rw [if_neg hsize] at hx
        cases hx
        apply haddress hsize

/-- An unbroken tiling is as long as its lines together. -/
theorem end_eq_add (h : Tiled c ps d) (horg : ∀ p ∈ ps, ¬ p.line.IsOrg) :
  d = c + UInt16.ofNat (totalSize ps)
  := by
  induction ps generalizing c with
  | nil =>
      rw [← h]
      simp [totalSize]
  | cons p ps ih =>
      rw [List.forall_mem_cons] at horg
      rw [ih ((cons_iff horg.1).mp h).2 horg.2, totalSize, UInt16.ofNat_add, UInt16.ofNat_toNat,
        UInt16.add_assoc]

/-- A tiling in which only the first line may be an `.ORG` is unbroken from where that line
leads. -/
theorem exists_start (h : Tiled c ps d) (hfaithful : ∀ p ∈ ps, p.Faithful)
    (horg : ∀ p ∈ ps.tail, ¬ p.line.IsOrg) :
  ∃ start, d = start + UInt16.ofNat (totalSize ps)
    ∧ (∀ x, ps.findSome? Placement.entry? = some x → x.2.address = start)
    ∧ (start = c ∨ ∃ p ∈ ps.head?, p.line.IsOrg ∧ p.address = start)
  := by
  cases ps with
  | nil =>
      obtain rfl : c = d := h
      exact ⟨c, by simp [totalSize], by simp, .inl rfl⟩
  | cons p ps =>
      by_cases hp : p.line.IsOrg
      · have hsize : p.size = 0 := by
          by_contra hsize
          apply (hfaithful p List.mem_cons_self).not_org hsize hp
        have hrest := (cons_org_iff hp).mp h
        refine ⟨p.address, ?_, ?_, .inr ⟨p, rfl, hp, rfl⟩⟩
        · rw [totalSize, hsize, UInt16.toNat_zero, Nat.zero_add]
          apply hrest.end_eq_add horg
        · intro x hx
          rw [List.findSome?_cons, Placement.entry?, if_pos hsize] at hx
          apply hrest.address_of_entry horg hx
      · have hnone : ∀ q ∈ p :: ps, ¬ q.line.IsOrg := List.forall_mem_cons.mpr ⟨hp, horg⟩
        exact ⟨c, h.end_eq_add hnone, fun x hx => h.address_of_entry hnone hx, .inl rfl⟩

end Tiled

namespace Pass

variable {pass : Pass} {base : UInt16} {lines : List NumberedLine} {w : Walk}
  {x : LineId × Address}

/-- The first line with bytes that a walk visits. -/
theorem walk_first (h : (pass.walk base lines).outcome = .ok w) :
  w.first? = ((pass.walk base lines).placements.findSome? Placement.entry?).map (·.2.address)
  := by
  obtain ⟨exit, -, rfl⟩ := walk_eq_ok_iff.mp h
  rw [findSome?_entry?_eq, Option.map_map]
  rfl

theorem first?_eq_none (h : (pass.walk base lines).outcome = .ok w) (hbytes : w.bytes = 0) :
  w.first? = none
  := by
  rw [walk_first h, Option.map_eq_none_iff, ← totalSize_eq_zero_iff]
  obtain ⟨exit, -, rfl⟩ := walk_eq_ok_iff.mp h
  apply hbytes

/-- A backward walk exits below the first line with bytes. -/
theorem address_of_walk_backward (hdir : pass.direction = .backward)
    (horg : ∀ l ∈ lines, ¬ l.IsOrg) (h : (pass.walk base lines).outcome = .ok w)
    (hx : (pass.laid base lines).findSome? Placement.entry? = some x) :
  w.bytes ≠ 0 ∧ w.exit + 1 = x.2.address
  := by
  have htiled := (walk_backward_tiled hdir horg h).1
  rw [← laid_lines h, List.forall_mem_map] at horg
  use (walk_bytes h).trans_ne (totalSize_ne_zero hx)
  apply (htiled.address_of_entry horg hx).symm

/-- A backward walk goes down by the number of its bytes. -/
theorem entry_eq_add (hdir : pass.direction = .backward) (horg : ∀ l ∈ lines, ¬ l.IsOrg)
    (h : (pass.walk base lines).outcome = .ok w) :
  w.entry = base ∧ w.entry = w.exit + UInt16.ofNat w.bytes
  := by
  have htiled := (walk_backward_tiled hdir horg h).1
  have hbytes := walk_bytes h
  rw [← laid_lines h, List.forall_mem_map] at horg
  have hend := htiled.end_eq_add horg
  rw [← hbytes] at hend
  obtain ⟨exit, -, rfl⟩ := walk_eq_ok_iff.mp h
  use rfl
  grind

/-- A forward walk that only an `.ORG` at its start can break goes up by the number of its bytes,
from its base or from that `.ORG`. -/
theorem exit_eq_add (hdir : pass.direction = .forward)
    (h : (pass.walk base lines).outcome = .ok w)
    (horg : ∀ p ∈ (pass.laid base lines).tail, ¬ p.line.IsOrg) :
  w.exit = w.first?.getD w.exit + UInt16.ofNat w.bytes
    ∧ (w.first?.getD w.exit = base
      ∨ ∃ p ∈ (pass.laid base lines).head?, p.line.IsOrg ∧ p.address = w.first?.getD w.exit)
  := by
  have hfaithful : ∀ p ∈ pass.laid base lines, p.Faithful := by
    intro p hp
    obtain ⟨_, hplace⟩ := exists_place_of_mem_laid h hp
    apply place_faithful hplace
  obtain ⟨start, hend, hfirst, hstart⟩ :=
    (walk_forward_tiled hdir h).1.exists_start hfaithful horg
  have hlow : w.first?.getD w.exit = start := by
    cases hx : (pass.laid base lines).findSome? Placement.entry? with
    | none =>
        have hbytes := (walk_bytes h).trans (totalSize_eq_zero_iff.mpr hx)
        rw [first?_eq_none h hbytes, Option.getD_none, hend, totalSize_eq_zero_iff.mpr hx]
        simp
    | some x =>
        rw [laid, hdir, Direction.order] at hx
        rw [walk_first h, hx, Option.map_some, Option.getD_some]
        apply hfirst
        rw [laid, hdir, Direction.order, hx]
  rw [hlow, walk_bytes h]
  use hend

end Pass

namespace Section.LaidOut

variable {owner : TableId} {index : Nat} {s : Section} {ps : List Placement}
  {x : LineId × Address}

theorem base_eq_of_entry (h : s.LaidOut owner index ps)
    (hx : ps.findSome? Placement.entry? = some x) :
  s.bounds.base = x.2.address
  := by
  obtain ⟨a, h⟩ := h
  cases h with
  | forward hwalk hbounds =>
      have hfirst : _ = some x.2.address := (Pass.walk_first hwalk).trans (congrArg _ hx)
      rw [hbounds, Walk.forwardBounds, hfirst]
      rfl
  | backward hwalk hbounds horg =>
      obtain ⟨hbytes, haddress⟩ := Pass.address_of_walk_backward rfl horg hwalk hx
      rw [hbounds, Walk.backwardBounds, ← haddress]
      apply if_neg hbytes
  | anchor hbefore hafter hbounds horg =>
      rw [hbounds, Walk.anchorBounds]
      -- the first line with bytes stands before the split, unless there is none
      rw [List.findSome?_append, Option.or_eq_some_iff] at hx
      rcases hx with hx | ⟨hnone, hx⟩
      · obtain ⟨hbytes, haddress⟩ := Pass.address_of_walk_backward rfl horg hbefore hx
        rw [← haddress]
        apply if_neg hbytes
      · have hbytes := (Pass.walk_bytes hbefore).trans (totalSize_eq_zero_iff.mpr hnone)
        have hfirst : _ = some x.2.address := (Pass.walk_first hafter).trans (congrArg _ hx)
        simp only [if_pos hbytes, hfirst]
        rfl

/-- The base of a section is the address of its first line that has one. -/
theorem base_eq {t : LineTable Address} (h : s.LaidOut owner index ps) (ht : Entered t ps)
    (hx : (t.entriesOf s.lines).head? = some x) :
  s.bounds.base = x.2.address
  := by
  rw [← h.lines, ht.entriesOf_eq, List.head?_filterMap] at hx
  apply h.base_eq_of_entry hx

end Section.LaidOut

/-! ### Distances between bounds -/

/-- The bounds of a section with the lines placed in `bs` and `fs`.  Those in `bs` are among the
lines that are laid out backward from an origin, those in `fs` among the ones laid out forward. -/
structure Section.Spread (s : Section) (below above : List NumberedLine) (origin : UInt16)
    (bs fs : List Placement) : Prop where
  lines_eq : (bs ++ fs).map (·.line) = s.lines
  byteCount_eq : s.bounds.byteCount = totalSize bs + totalSize fs
  below_subset : bs.map (·.line) ⊆ below
  above_infix : fs.map (·.line) <:+: above
  /-- Only the section of the anchor has lines of both kinds. -/
  above_prefix : bs ≠ [] → fs.map (·.line) <+: above
  base_backward : totalSize bs ≠ 0 → s.bounds.base = s.bounds.low + 1
  base_forward : totalSize bs = 0 → s.bounds.base = s.bounds.low
  extent_backward : totalSize fs = 0 → s.bounds.extent = UInt16.ofNat (totalSize bs)
  extent_forward : totalSize bs = 0 → (∀ p ∈ fs.tail, ¬ p.line.IsOrg) →
    s.bounds.extent = UInt16.ofNat (totalSize fs)
  /-- The low bound lies below the first byte and the high bound after the last one. -/
  extent_both : totalSize bs ≠ 0 → totalSize fs ≠ 0 → (∀ p ∈ fs.tail, ¬ p.line.IsOrg) →
    (∀ p ∈ fs.head?, p.line.IsOrg → p.address = origin) →
    s.bounds.extent = UInt16.ofNat (totalSize bs + totalSize fs + 1)

theorem linesAt_infix_take (sections : List Section) {i n : Nat} (h : i < n) :
  linesAt sections i <:+: sectionOrder (sections.take n)
  := by
  rw [linesAt]
  cases hs : sections[i]? with
  | none => apply List.nil_infix
  | some s =>
      have hmem : s ∈ sections.take n := by
        apply List.mem_of_getElem? (i := i)
        rw [List.getElem?_take_of_lt h, hs]
      obtain ⟨before, after, happend⟩ := List.append_of_mem hmem
      use sectionOrder before, sectionOrder after
      simp [happend, sectionOrder]

theorem linesAt_infix_drop (sections : List Section) {i n : Nat} (h : n ≤ i) :
  linesAt sections i <:+: sectionOrder (sections.drop n)
  := by
  rw [linesAt]
  cases hs : sections[i]? with
  | none => apply List.nil_infix
  | some s =>
      have hmem : s ∈ sections.drop n := by
        apply List.mem_of_getElem? (i := i - n)
        rw [List.getElem?_drop, Nat.add_sub_cancel' h, hs]
      obtain ⟨before, after, happend⟩ := List.append_of_mem hmem
      use sectionOrder before, sectionOrder after
      simp [happend, sectionOrder]


namespace Section.Spread

variable {owner : TableId} {index : Nat} {s : Section} {below above : List NumberedLine}
  {origin : UInt16}

theorem of_forward {base : UInt16} {w : Walk}
    (hwalk : (Pass.walk ⟨owner, index, .forward⟩ base s.lines).outcome = .ok w)
    (hbounds : s.bounds = w.forwardBounds) (habove : s.lines <:+: above) :
  s.Spread below above origin [] (Pass.laid ⟨owner, index, .forward⟩ base s.lines)
  := by
  have hbytes := Pass.walk_bytes hwalk
  refine {
    lines_eq := Pass.laid_lines hwalk
    byteCount_eq := ?_
    below_subset := List.nil_subset _
    above_infix := by rwa [Pass.laid_lines hwalk]
    above_prefix := fun h => absurd rfl h
    base_backward := fun h => absurd rfl h
    base_forward := fun _ => by rw [hbounds]; rfl
    extent_backward := ?_
    extent_forward := ?_
    extent_both := fun h => absurd rfl h }
  · rw [hbounds, totalSize, Nat.zero_add]
    apply hbytes
  · intro hzero
    rw [hzero] at hbytes
    simp [hbounds, Bounds.extent, Walk.forwardBounds, Pass.first?_eq_none hwalk hbytes, totalSize]
  · intro _ horg
    have hexit := (Pass.exit_eq_add rfl hwalk horg).1
    rw [← hbytes, hbounds, Bounds.extent, Walk.forwardBounds]
    grind

theorem of_backward {base : UInt16} {w : Walk}
    (hwalk : (Pass.walk ⟨owner, index, .backward⟩ base s.lines).outcome = .ok w)
    (hbounds : s.bounds = w.backwardBounds) (horg : ∀ l ∈ s.lines, ¬ l.IsOrg)
    (hbelow : s.lines ⊆ below) :
  s.Spread below above origin (Pass.laid ⟨owner, index, .backward⟩ base s.lines) []
  := by
  have hbytes := Pass.walk_bytes hwalk
  have hentry := (Pass.entry_eq_add rfl horg hwalk).2
  have hextent : s.bounds.extent = UInt16.ofNat w.bytes := by
    rw [hbounds, Bounds.extent, Walk.backwardBounds]
    grind
  refine {
    lines_eq := by rw [List.append_nil, Pass.laid_lines hwalk]
    byteCount_eq := ?_
    below_subset := by rwa [Pass.laid_lines hwalk]
    above_infix := List.nil_infix
    above_prefix := fun _ => List.nil_prefix
    base_backward := ?_
    base_forward := ?_
    extent_backward := fun _ => by rw [hextent, hbytes]
    extent_forward := ?_
    extent_both := fun _ h => absurd rfl h }
  · rw [hbounds]
    apply hbytes
  · intro hne
    rw [← hbytes] at hne
    rw [hbounds]
    apply if_neg hne
  · intro hzero
    rw [← hbytes] at hzero
    rw [hbounds]
    apply if_pos hzero
  · intro hzero _
    rw [hextent, hbytes, hzero]
    rfl

theorem of_anchor {before after : Walk} {split : Nat}
    (hbefore : (Pass.walk ⟨owner, index, .backward⟩ (origin - 1)
      (s.lines.take split)).outcome = .ok before)
    (hafter : (Pass.walk ⟨owner, index, .forward⟩ origin
      (s.lines.drop split)).outcome = .ok after)
    (hbounds : s.bounds = before.anchorBounds after)
    (horg : ∀ l ∈ s.lines.take split, ¬ l.IsOrg) (hbelow : s.lines.take split ⊆ below)
    (habove : s.lines.drop split <+: above) :
  s.Spread below above origin
    (Pass.laid ⟨owner, index, .backward⟩ (origin - 1) (s.lines.take split))
    (Pass.laid ⟨owner, index, .forward⟩ origin (s.lines.drop split))
  := by
  have hbytes := Pass.walk_bytes hbefore
  have hbytes' := Pass.walk_bytes hafter
  obtain ⟨hentry, hexit⟩ := Pass.entry_eq_add rfl horg hbefore
  refine {
    lines_eq := by
      rw [List.map_append, Pass.laid_lines hbefore, Pass.laid_lines hafter, List.take_append_drop]
    byteCount_eq := ?_
    below_subset := by rwa [Pass.laid_lines hbefore]
    above_infix := by
      rw [Pass.laid_lines hafter]
      apply habove.isInfix
    above_prefix := fun _ => by rwa [Pass.laid_lines hafter]
    base_backward := ?_
    base_forward := ?_
    extent_backward := ?_
    extent_forward := ?_
    extent_both := ?_ }
  · rw [← hbytes, ← hbytes', hbounds]
    rfl
  · intro hne
    rw [← hbytes] at hne
    simp only [hbounds, Walk.anchorBounds, if_neg hne]
  · intro hzero
    rw [← hbytes] at hzero
    simp only [hbounds, Walk.anchorBounds, if_pos hzero]
  · intro hzero
    rw [← hbytes'] at hzero
    rw [← hbytes]
    by_cases h : before.bytes = 0
    · simp [hbounds, Bounds.extent, Walk.anchorBounds, h, Pass.first?_eq_none hafter hzero]
    · simp only [hbounds, Bounds.extent, Walk.anchorBounds, h, hzero, if_false, ne_eq,
        not_true_eq_false, or_self]
      grind
  · intro hzero horg'
    have hexit' := (Pass.exit_eq_add rfl hafter horg').1
    rw [← hbytes] at hzero
    rw [← hbytes']
    simp only [hbounds, Bounds.extent, Walk.anchorBounds, hzero, if_true, or_true]
    grind
  · intro hne hne' horg' hhead
    obtain ⟨hexit', hstart⟩ := Pass.exit_eq_add rfl hafter horg'
    have hstart : after.first?.getD after.exit = origin := by
      obtain hstart | ⟨p, hp, hporg, hstart⟩ := hstart
      · apply hstart
      · rw [← hstart]
        apply hhead p hp hporg
    rw [← hbytes] at hne ⊢
    rw [← hbytes'] at hne' ⊢
    rw [hstart] at hexit'
    simp only [hbounds, Bounds.extent, Walk.anchorBounds, hne, hne', if_false, ne_eq,
      not_false_eq_true, true_or, if_true, UInt16.ofNat_add]
    grind

end Section.Spread

theorem Section.LaidOutFrom.exists_spread {owner : TableId} {a : Anchor} {index : Nat}
    {s : Section} {ps : List Placement} (h : s.LaidOutFrom owner a index ps)
    {sections : List Section} (hlines : linesAt sections index = s.lines) :
  ∃ bs fs, ps = bs ++ fs ∧ s.Spread (a.below sections) (a.above sections) a.origin bs fs
  := by
  cases h with
  | forward hwalk hbounds hindex =>
      refine ⟨[], _, rfl, .of_forward hwalk hbounds ?_⟩
      rw [← hlines, Anchor.above]
      apply (linesAt_infix_drop sections hindex).trans (List.suffix_append _ _).isInfix
  | backward hwalk hbounds horg hindex =>
      refine ⟨_, [], (List.append_nil _).symm, .of_backward hwalk hbounds horg ?_⟩
      rw [← hlines, Anchor.below]
      apply List.subset_append_of_subset_left
      apply (linesAt_infix_take sections hindex).subset
  | anchor hbefore hafter hbounds horg hindex =>
      refine ⟨_, _, rfl, .of_anchor hbefore hafter hbounds horg ?_ ?_⟩
      · rw [← hlines, hindex, Anchor.below]
        apply List.subset_append_right
      · rw [← hlines, hindex, Anchor.above]
        apply List.prefix_append

/-- Without bytes there is no distance between the bounds. -/
theorem Section.LaidOut.extent_eq_zero {owner : TableId} {index : Nat} {s : Section}
    {ps : List Placement} (h : s.LaidOut owner index ps) (hbytes : s.bounds.byteCount = 0) :
  s.bounds.extent = 0
  := by
  obtain ⟨a, h⟩ := h
  -- any sections will do that have this one at its position
  have hlines : linesAt (List.replicate (index + 1) s) index = s.lines := by simp [linesAt]
  obtain ⟨bs, fs, -, hspread⟩ := h.exists_spread hlines
  rw [hspread.byteCount_eq, Nat.add_eq_zero_iff] at hbytes
  rw [hspread.extent_backward hbytes.2, hbytes.1]
  rfl

end Pep10
