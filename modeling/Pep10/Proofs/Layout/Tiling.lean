import Pep10.Proofs.Layout.Walk
import Mathlib.Algebra.BigOperators.Group.List.Basic
import Mathlib.Algebra.GroupWithZero.Nat

/-!
# Tilings

Placements tile the addresses from `c` to `d` when each line that takes bytes lies at the address
reached before it, and an `.ORG` goes on from its own value.  Walks in both directions tile: a
forward walk from its base to its exit, a backward walk, with its lines put back in order, from
above its exit to above its base.  In a tiling, lines that take no bytes make no difference to
the addresses of the lines around them.  Every line, with bytes or without, is visited at the
address its walk has reached.
-/

namespace Pep10

/-- Placements in the order of their lines reach from `c` to `d`. -/
def Tiled : UInt16 → List Placement → UInt16 → Prop
  | c, [], d => c = d
  | c, p :: ps, d =>
    if p.line.IsOrg then Tiled p.address ps d
    else (p.size ≠ 0 → p.address = c) ∧ Tiled (c + p.size) ps d

namespace Tiled

variable {c d e : UInt16} {p : Placement} {ps qs : List Placement}

theorem cons_org_iff (h : p.line.IsOrg) :
  Tiled c (p :: ps) d ↔ Tiled p.address ps d
  := by
  rw [Tiled, if_pos h]

theorem cons_iff (h : ¬ p.line.IsOrg) :
  Tiled c (p :: ps) d ↔ (p.size ≠ 0 → p.address = c) ∧ Tiled (c + p.size) ps d
  := by
  rw [Tiled, if_neg h]

theorem append_iff :
  Tiled c (ps ++ qs) e ↔ ∃ d, Tiled c ps d ∧ Tiled d qs e
  := by
  induction ps generalizing c with
  | nil => simp [Tiled]
  | cons p ps ih =>
      rw [List.cons_append]
      by_cases h : p.line.IsOrg
      · simp only [cons_org_iff h, ih]
      · simp only [cons_iff h, ih, and_assoc, exists_and_left]

theorem append (hps : Tiled c ps d) (hqs : Tiled d qs e) :
  Tiled c (ps ++ qs) e
  := append_iff.mpr ⟨d, hps, hqs⟩

/-- Lines that take no bytes lead nowhere. -/
theorem end_eq (h : Tiled c ps d) (hsize : ∀ p ∈ ps, p.size = 0)
    (horg : ∀ p ∈ ps, ¬ p.line.IsOrg) :
  d = c
  := by
  induction ps generalizing c with
  | nil => apply h.symm
  | cons p ps ih =>
      rw [List.forall_mem_cons] at hsize horg
      have hrest := ((cons_iff horg.1).mp h).2
      rw [hsize.1, UInt16.add_zero] at hrest
      apply ih hrest hsize.2 horg.2

end Tiled

/-- Each line is visited at the address reached before it from `c`. -/
def BasesForward (c : UInt16) (ps : List Placement) : Prop :=
  ∀ before q after, ps = before ++ q :: after → Tiled c before q.base

/-- Each line is visited below the address from which the lines after it reach `d`. -/
def BasesBackward (ps : List Placement) (d : UInt16) : Prop :=
  ∀ before q after, ps = before ++ q :: after → Tiled (q.base + 1) after d

/-- A position in an append is a position in one of its parts. -/
theorem append_eq_append_cons {α : Type} {x : α} {xs ys before after : List α}
    (h : xs ++ ys = before ++ x :: after) :
  (∃ between, before = xs ++ between ∧ ys = between ++ x :: after)
    ∨ ∃ between, xs = before ++ x :: between ∧ after = between ++ ys
  := by
  obtain hright | ⟨between, hxs, hys⟩ := List.append_eq_append_iff.mp h
  · left
    apply hright
  · obtain ⟨rfl, rfl⟩ | ⟨between, rfl, rfl⟩ := List.cons_eq_append_iff.mp hys
    · left
      use []
      simpa using hxs.symm
    · right
      use between

section

variable {c d e : UInt16} {p : Placement} {ps qs : List Placement}

theorem BasesForward.cons (hp : p.base = c) (htiled : Tiled c [p] d) (h : BasesForward d ps) :
  BasesForward c (p :: ps)
  := by
  intro before q after heq
  obtain ⟨rfl, hq⟩ | ⟨before, rfl, hq⟩ := List.cons_eq_append_iff.mp heq
  · cases hq
    apply hp.symm
  · apply htiled.append (h before q after hq)

theorem BasesForward.append (hps : BasesForward c ps) (htiled : Tiled c ps d)
    (hqs : BasesForward d qs) :
  BasesForward c (ps ++ qs)
  := by
  intro before q after heq
  obtain ⟨between, rfl, hq⟩ | ⟨between, hq, -⟩ := append_eq_append_cons heq
  · apply htiled.append (hqs between q after hq)
  · apply hps before q between hq

theorem basesBackward_singleton (hp : p.base + 1 = d) :
  BasesBackward [p] d
  := by
  intro before q after heq
  obtain ⟨rfl, hq⟩ | ⟨_, -, hq⟩ := List.cons_eq_append_iff.mp heq
  · cases hq
    apply hp
  · simp at hq

theorem BasesBackward.append (hps : BasesBackward ps d) (htiled : Tiled d qs e)
    (hqs : BasesBackward qs e) :
  BasesBackward (ps ++ qs) e
  := by
  intro before q after heq
  obtain ⟨between, -, hq⟩ | ⟨between, hq, rfl⟩ := append_eq_append_cons heq
  · apply hqs between q after hq
  · apply (hps before q between hq).append htiled

end

namespace Pass

variable {pass : Pass} {base next exit : UInt16} {lines : List NumberedLine} {l : NumberedLine}
  {p : Placement}

theorem place_forward_tiled (hdir : pass.direction = .forward)
    (h : pass.place base l = .ok (p, next)) :
  Tiled base [p] next
  := by
  have hl := place_line h
  by_cases horg : l.IsOrg
  · rw [Tiled.cons_org_iff (by rwa [hl]), place_org h horg]
    rfl
  · obtain ⟨haddress, rfl⟩ := place_forward h hdir horg
    rw [Tiled.cons_iff (by rwa [hl])]
    use fun _ => haddress
    rfl

theorem place_backward_tiled (hdir : pass.direction = .backward)
    (h : pass.place base l = .ok (p, next)) (horg : ¬ p.line.IsOrg) :
  Tiled (next + 1) [p] (base + 1)
  := by
  obtain ⟨hnext, haddress⟩ := place_backward h hdir (place_line h ▸ horg)
  rw [Tiled.cons_iff horg]
  constructor
  · intro hsize
    rw [haddress, if_neg hsize]
  · -- the base lies one address below the end of the line
    rw [Tiled, hnext]
    grind

theorem visit_forward_tiled (hdir : pass.direction = .forward)
    (h : (pass.visit base lines).outcome = .ok exit) :
  Tiled base (pass.visit base lines).placements exit
    ∧ BasesForward base (pass.visit base lines).placements
  := by
  apply visit_induction (motive := fun b ps e => Tiled b ps e ∧ BasesForward b ps) _ _ h
  · intro b
    constructor
    · rfl
    · intro before q after heq
      simp at heq
  · rintro b next e l p ps hplace ⟨htiled, hbases⟩
    have hp := place_forward_tiled hdir hplace
    use hp.append htiled, hbases.cons (place_base hplace) hp

theorem visit_backward_tiled (hdir : pass.direction = .backward)
    (horg : ∀ l ∈ lines, ¬ l.IsOrg) (h : (pass.visit base lines).outcome = .ok exit) :
  Tiled (exit + 1) (pass.visit base lines).placements.reverse (base + 1)
    ∧ BasesBackward (pass.visit base lines).placements.reverse (base + 1)
  := by
  rw [← visit_lines h, List.forall_mem_map] at horg
  revert horg
  apply visit_induction (motive := fun b ps e => (∀ p ∈ ps, ¬ p.line.IsOrg) →
    Tiled (e + 1) ps.reverse (b + 1) ∧ BasesBackward ps.reverse (b + 1)) _ _ h
  · intro b _
    constructor
    · rfl
    · intro before q after heq
      simp at heq
  · intro b next e l p ps hplace ih horg
    rw [List.forall_mem_cons] at horg
    rw [List.reverse_cons]
    obtain ⟨htiled, hbases⟩ := ih horg.2
    have hp := place_backward_tiled hdir hplace horg.1
    have hbase : p.base + 1 = b + 1 := by rw [place_base hplace]
    use htiled.append hp, hbases.append hp (basesBackward_singleton hbase)

end Pass

/-! ### Walks in the order of their lines -/

namespace Direction

variable {α β : Type} (dir : Direction)

@[simp]
theorem order_order (xs : List α) :
  dir.order (dir.order xs) = xs
  := by
  cases dir with
  | forward => rfl
  | backward => apply List.reverse_reverse

theorem map_order (f : α → β) (xs : List α) :
  (dir.order xs).map f = dir.order (xs.map f)
  := by
  cases dir with
  | forward => rfl
  | backward => apply List.map_reverse

theorem order_perm (xs : List α) :
  (dir.order xs).Perm xs
  := by
  cases dir with
  | forward => rfl
  | backward => apply List.reverse_perm

end Direction

theorem totalSize_eq_sum (ps : List Placement) :
  totalSize ps = (ps.map (·.size.toNat)).sum
  := by
  induction ps with
  | nil => rfl
  | cons p ps ih => rw [totalSize, ih, List.map_cons, List.sum_cons]

theorem totalSize_append (ps qs : List Placement) :
  totalSize (ps ++ qs) = totalSize ps + totalSize qs
  := by
  simp [totalSize_eq_sum]

theorem totalSize_perm {ps qs : List Placement} (h : ps.Perm qs) :
  totalSize ps = totalSize qs
  := by
  rw [totalSize_eq_sum, totalSize_eq_sum]
  apply (h.map _).sum_eq

namespace Pass

variable {pass : Pass} {base : UInt16} {lines : List NumberedLine} {w : Walk}

/-- The placements of a walk in the order of the lines. -/
def laid (pass : Pass) (base : UInt16) (lines : List NumberedLine) : List Placement :=
  pass.direction.order (pass.walk base lines).placements

theorem walk_eq_ok_iff :
  (pass.walk base lines).outcome = .ok w
    ↔ ∃ exit, (pass.visit base (pass.direction.order lines)).outcome = .ok exit
      ∧ w = { entry := base
              exit
              first? := ((pass.walk base lines).placements.find? (·.size ≠ 0)).map (·.address)
              bytes := totalSize (pass.walk base lines).placements }
  := by
  simp only [walk]
  cases (pass.visit base (pass.direction.order lines)).outcome with
  | error e => simp [Except.map]
  | ok exit => simp [Except.map, eq_comm]

theorem laid_perm (pass : Pass) (base : UInt16) (lines : List NumberedLine) :
  (pass.laid base lines).Perm (pass.walk base lines).placements
  := pass.direction.order_perm _

theorem laid_lines (h : (pass.walk base lines).outcome = .ok w) :
  (pass.laid base lines).map (·.line) = lines
  := by
  obtain ⟨exit, hvisit, -⟩ := walk_eq_ok_iff.mp h
  rw [laid, Direction.map_order, walk, visit_lines hvisit, Direction.order_order]

theorem walk_bytes (h : (pass.walk base lines).outcome = .ok w) :
  w.bytes = totalSize (pass.laid base lines)
  := by
  obtain ⟨exit, -, rfl⟩ := walk_eq_ok_iff.mp h
  apply totalSize_perm (pass.laid_perm base lines).symm

theorem exists_place_of_mem_laid (h : (pass.walk base lines).outcome = .ok w) {p : Placement}
    (hp : p ∈ pass.laid base lines) :
  ∃ next, pass.place p.base p.line = .ok (p, next)
  := by
  obtain ⟨exit, hvisit, -⟩ := walk_eq_ok_iff.mp h
  apply exists_place_of_mem_visit hvisit p ((pass.laid_perm base lines).mem_iff.mp hp)

theorem walk_forward_tiled (hdir : pass.direction = .forward)
    (h : (pass.walk base lines).outcome = .ok w) :
  Tiled base (pass.laid base lines) w.exit ∧ BasesForward base (pass.laid base lines)
  := by
  obtain ⟨exit, hvisit, rfl⟩ := walk_eq_ok_iff.mp h
  rw [laid, walk]
  simp only [hdir, Direction.order] at hvisit ⊢
  apply visit_forward_tiled hdir hvisit

theorem walk_backward_tiled (hdir : pass.direction = .backward)
    (horg : ∀ l ∈ lines, ¬ l.IsOrg) (h : (pass.walk base lines).outcome = .ok w) :
  Tiled (w.exit + 1) (pass.laid base lines) (base + 1)
    ∧ BasesBackward (pass.laid base lines) (base + 1)
  := by
  obtain ⟨exit, hvisit, rfl⟩ := walk_eq_ok_iff.mp h
  rw [laid, walk]
  simp only [hdir, Direction.order] at hvisit ⊢
  apply visit_backward_tiled hdir _ hvisit
  simpa using horg

/-- A walk succeeds when each of its lines can be placed. -/
theorem walk_isOk_iff (pass : Pass) (base : UInt16) (lines : List NumberedLine) :
  (∃ w, (pass.walk base lines).outcome = .ok w) ↔ ∀ l ∈ lines, l.line.Placeable
  := by
  have hmem : ∀ l, l ∈ pass.direction.order lines ↔ l ∈ lines :=
    fun l => (pass.direction.order_perm lines).mem_iff
  simp only [← hmem, ← pass.visit_isOk_iff base, walk_eq_ok_iff]
  constructor
  · rintro ⟨w, exit, hvisit, -⟩
    use exit
  · rintro ⟨exit, hvisit⟩
    exact ⟨_, exit, hvisit, rfl⟩

end Pass

end Pep10
