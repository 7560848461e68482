import Pep10.Layout.Placement
import Mathlib.Tactic.Use

/-!
# Walks

What it means that lines are placed.  A line is placed with the size it has at the base where it
is visited.  An `.ORG` is placed at its value and the walk goes on from there.  Any other line
moves the base by its size, up in a forward walk and down in a backward one, where the base is
the last address that is free.

Whether a line can be placed does not depend on where the walk is: only the operand of an `.ORG`,
and that of an `.EQUATE` that declares a symbol, can end a walk.
-/

namespace Pep10

/-! ### Outcomes -/

theorem Except.bind_eq_ok_iff {ε α β : Type} {x : Except ε α} {f : α → Except ε β} {b : β} :
  x >>= f = .ok b ↔ ∃ a, x = .ok a ∧ f a = .ok b
  := by
  cases x with
  | error e => simp [bind, Except.bind]
  | ok a => simp [bind, Except.bind]

theorem Except.bind_eq_error_iff {ε α β : Type} {x : Except ε α} {f : α → Except ε β} {e : ε} :
  x >>= f = .error e ↔ x = .error e ∨ ∃ a, x = .ok a ∧ f a = .error e
  := by
  cases x with
  | error e' => simp [bind, Except.bind]
  | ok a => simp [bind, Except.bind]

theorem Except.map_eq_ok_iff {ε α β : Type} {x : Except ε α} {f : α → β} {b : β} :
  x.map f = .ok b ↔ ∃ a, x = .ok a ∧ f a = b
  := by
  cases x with
  | error e => simp [Except.map]
  | ok a => simp [Except.map]

namespace Traced

variable {α β : Type}

@[simp]
theorem outcome_pure (a : α) :
  (pure a : Traced α).outcome = .ok a
  := rfl

@[simp]
theorem placements_pure (a : α) :
  (pure a : Traced α).placements = []
  := rfl

theorem outcome_bind_eq_ok_iff {t : Traced α} {f : α → Traced β} {b : β} :
  (t >>= f).outcome = .ok b ↔ ∃ a, t.outcome = .ok a ∧ (f a).outcome = .ok b
  := by
  obtain ⟨ps, e | a⟩ := t
  · simp [bind]
  · simp [bind]

theorem placements_bind {t : Traced α} {f : α → Traced β} {a : α} (h : t.outcome = .ok a) :
  (t >>= f).placements = t.placements ++ (f a).placements
  := by
  obtain ⟨ps, e | a'⟩ := t
  · cases h
  · cases h
    rfl

end Traced

/-! ### Placing one line -/

/-- Does a line fix the address of the next byte? -/
def NumberedLine.IsOrg (l : NumberedLine) : Prop :=
  (l.origin? .org).isSome

instance (l : NumberedLine) : Decidable l.IsOrg :=
  inferInstanceAs (Decidable (_ = true))

theorem NumberedLine.isOrg_of_eq_some {l : NumberedLine} {a : Argument}
    (h : l.origin? .org = some a) :
  l.IsOrg
  := Option.isSome_of_eq_some h

theorem NumberedLine.origin?_eq_some_iff {kind : OriginKind} {l : NumberedLine} {a : Argument} :
  l.origin? kind = some a ↔ l.line.kind = .origin kind a
  := by
  rw [origin?]
  split
  · next found b hkind =>
    rw [hkind]
    split
    · next h => simp [h]
    · next h => simp [h]
  · next hkind =>
    simp only [reduceCtorEq, false_iff]
    apply hkind

namespace Placement

/-- A placement has the size of its line at the base where the line was visited, and that of an
`.ORG` lies at its value. -/
structure Faithful (p : Placement) : Prop where
  size_eq : p.size = p.line.line.size p.base
  origin_eq : ∀ {a : Argument}, p.line.origin? .org = some a →
    originValue p.line.id a = .ok p.address

end Placement

namespace Pass

variable {pass : Pass} {base next : UInt16} {l : NumberedLine} {p : Placement}

/-- Everything that placing a line can do. -/
theorem place_cases (h : pass.place base l = .ok (p, next)) :
  (∃ a, l.line.kind = .origin .org a ∧ originValue l.id a = .ok next
      ∧ p = ⟨l, base, next, 0, pass.label l next 0⟩)
    ∨ (∃ a d?, l.line.kind = .equate a ∧ pass.equate l a = .ok d? ∧ next = base
      ∧ p = ⟨l, base, base, 0, d?⟩)
    ∨ ((∀ a, l.line.kind ≠ .origin .org a) ∧ (∀ a, l.line.kind ≠ .equate a)
      ∧ pass.direction = .forward ∧ next = base + l.line.size base
      ∧ p = ⟨l, base, base, l.line.size base, pass.label l base (l.line.size base)⟩)
    ∨ ((∀ a, l.line.kind ≠ .origin .org a) ∧ (∀ a, l.line.kind ≠ .equate a)
      ∧ pass.direction = .backward ∧ next = base - l.line.size base
      ∧ ∃ address, address = (if l.line.size base = 0 then next else next + 1)
        ∧ p = ⟨l, base, address, l.line.size base, pass.label l address (l.line.size base)⟩)
  := by
  rw [place] at h
  split at h
  · next a hkind =>
    obtain ⟨origin, horigin, h⟩ := Except.bind_eq_ok_iff.mp h
    cases h
    left
    use a, hkind, horigin
  · next a hkind =>
    obtain ⟨d?, hd, h⟩ := Except.bind_eq_ok_iff.mp h
    cases h
    right; left
    use a, d?, hkind, hd, rfl
  · next horg hequate =>
    right; right
    cases hdir : pass.direction with
    | forward =>
        simp only [hdir] at h
        cases h
        left
        use horg, hequate, rfl, rfl
    | backward =>
        simp only [hdir] at h
        cases h
        right
        exact ⟨horg, hequate, rfl, rfl, _, rfl, rfl⟩

theorem place_line (h : pass.place base l = .ok (p, next)) :
  p.line = l
  := by
  obtain ⟨_, _, _, rfl⟩ | ⟨_, _, _, _, _, rfl⟩ | ⟨_, _, _, _, rfl⟩ | ⟨_, _, _, _, _, _, rfl⟩ :=
    place_cases h
  all_goals rfl

theorem place_base (h : pass.place base l = .ok (p, next)) :
  p.base = base
  := by
  obtain ⟨_, _, _, rfl⟩ | ⟨_, _, _, _, _, rfl⟩ | ⟨_, _, _, _, rfl⟩ | ⟨_, _, _, _, _, _, rfl⟩ :=
    place_cases h
  all_goals rfl

theorem place_faithful (h : pass.place base l = .ok (p, next)) :
  p.Faithful
  := by
  constructor
  · obtain ⟨a, hkind, _, rfl⟩ | ⟨a, _, hkind, _, _, rfl⟩ | ⟨_, _, _, _, rfl⟩
      | ⟨_, _, _, _, _, _, rfl⟩ := place_cases h
    · simp [Line.size, Line.size?, hkind]
    · simp [Line.size, Line.size?, hkind]
    · rfl
    · rfl
  · intro a ha
    rw [place_line h, NumberedLine.origin?_eq_some_iff] at ha
    obtain ⟨b, hkind, hvalue, rfl⟩ | ⟨b, _, hkind, _⟩ | ⟨horg, _⟩ | ⟨horg, _⟩ := place_cases h
    · rw [hkind] at ha
      cases ha
      apply hvalue
    · rw [hkind] at ha
      cases ha
    · cases horg a ha
    · cases horg a ha

/-- A walk goes on from the value of an `.ORG`. -/
theorem place_org (h : pass.place base l = .ok (p, next)) (horg : l.IsOrg) :
  next = p.address
  := by
  obtain ⟨a, ha⟩ := Option.isSome_iff_exists.mp horg
  rw [NumberedLine.origin?_eq_some_iff] at ha
  obtain ⟨_, _, _, rfl⟩ | ⟨_, _, hkind, _⟩ | ⟨hnot, _⟩ | ⟨hnot, _⟩ := place_cases h
  · rfl
  · rw [hkind] at ha
    cases ha
  · cases hnot a ha
  · cases hnot a ha

/-- A forward walk places a line at the base and goes on after it. -/
theorem place_forward (h : pass.place base l = .ok (p, next)) (hdir : pass.direction = .forward)
    (horg : ¬ l.IsOrg) :
  p.address = base ∧ next = base + p.size
  := by
  obtain ⟨_, hkind, _⟩ | ⟨_, _, _, _, rfl, rfl⟩ | ⟨_, _, _, rfl, rfl⟩ | ⟨_, _, hback, _⟩ :=
    place_cases h
  · cases horg (NumberedLine.isOrg_of_eq_some (NumberedLine.origin?_eq_some_iff.mpr hkind))
  · simp
  · simp
  · rw [hdir] at hback
    cases hback

/-- A backward walk places the last byte of a line at the base and goes on below its first. -/
theorem place_backward (h : pass.place base l = .ok (p, next))
    (hdir : pass.direction = .backward) (horg : ¬ l.IsOrg) :
  next = base - p.size ∧ p.address = if p.size = 0 then next else next + 1
  := by
  obtain ⟨_, hkind, _⟩ | ⟨_, _, _, _, rfl, rfl⟩ | ⟨_, _, hfor, _⟩
    | ⟨_, _, _, hnext, _, haddr, rfl⟩ := place_cases h
  · cases horg (NumberedLine.isOrg_of_eq_some (NumberedLine.origin?_eq_some_iff.mpr hkind))
  · simp
  · rw [hdir] at hfor
    cases hfor
  · use hnext, haddr

/-! ### Visiting lines -/

variable {lines : List NumberedLine} {exit : UInt16}

theorem visit_cons_eq_ok_iff :
  (pass.visit base (l :: lines)).outcome = .ok exit
    ↔ ∃ p next, pass.place base l = .ok (p, next) ∧ (pass.visit next lines).outcome = .ok exit
  := by
  rw [visit]
  split
  · next e h => simp [Traced.fail, h]
  · next p next h =>
    rw [h]
    constructor
    · intro hrest
      use p, next, rfl, hrest
    · rintro ⟨_, _, ⟨⟩, hrest⟩
      apply hrest

theorem placements_visit_cons (h : pass.place base l = .ok (p, next)) :
  (pass.visit base (l :: lines)).placements = p :: (pass.visit next lines).placements
  := by
  rw [visit, h]

/-- What holds of a visit without lines, and of a visit whenever it holds of the visit after its
first line, holds of every visit. -/
theorem visit_induction {motive : UInt16 → List Placement → UInt16 → Prop}
    (nil : ∀ b, motive b [] b)
    (cons : ∀ {b next e l p ps}, pass.place b l = .ok (p, next) → motive next ps e →
      motive b (p :: ps) e) :
    ∀ {base : UInt16} {lines : List NumberedLine}, (pass.visit base lines).outcome = .ok exit →
      motive base (pass.visit base lines).placements exit
  | base, [], h => by
      cases h
      apply nil
  | base, l :: lines, h => by
      obtain ⟨p, next, hplace, hrest⟩ := visit_cons_eq_ok_iff.mp h
      rw [placements_visit_cons hplace]
      apply cons hplace (visit_induction nil cons hrest)

theorem visit_lines :
    ∀ {base : UInt16} {lines : List NumberedLine}, (pass.visit base lines).outcome = .ok exit →
      (pass.visit base lines).placements.map (·.line) = lines
  | _, [], _ => rfl
  | _, _ :: _, h => by
      obtain ⟨p, next, hplace, hrest⟩ := visit_cons_eq_ok_iff.mp h
      rw [placements_visit_cons hplace, List.map_cons, visit_lines hrest, place_line hplace]

/-- A placement of a visit is made by placing its line. -/
theorem exists_place_of_mem_visit (h : (pass.visit base lines).outcome = .ok exit) :
  ∀ p ∈ (pass.visit base lines).placements, ∃ next, pass.place p.base p.line = .ok (p, next)
  := by
  apply visit_induction (motive := fun _ ps _ =>
    ∀ p ∈ ps, ∃ next, pass.place p.base p.line = .ok (p, next)) _ _ h
  · simp
  · intro b next e l p ps hplace ih
    rw [List.forall_mem_cons]
    constructor
    · use next
      rw [place_base hplace, place_line hplace, hplace]
    · apply ih

/-! ### Lines that can be placed -/

theorem originValue_isOk_iff (id : LineId) (a : Argument) :
  (∃ v, originValue id a = .ok v) ↔ ∃ v, a.constant 2 = .ok (some v)
  := by
  cases a with
  | symbolic name r => simp [originValue, Argument.constant]
  | literal lit =>
      cases h : lit.value 2 with
      | error e => simp [originValue, Argument.constant, h, Except.map]
      | ok v => simp [originValue, Argument.constant, h, Except.map]

theorem equateValue_isOk_iff (owner : TableId) (id : LineId) (a : Argument) :
  (∃ v, equateValue owner id a = .ok v) ↔ ∃ v?, a.constant 2 = .ok v?
  := by
  cases a with
  | symbolic name r => simp [equateValue, Argument.constant]
  | literal lit =>
      cases h : lit.value 2 with
      | error e => simp [equateValue, Argument.constant, h, Except.map]
      | ok v => simp [equateValue, Argument.constant, h, Except.map]

end Pass

/-- The operand of an `.ORG` has to have a value of its own, and that of an `.EQUATE` that
declares a symbol such a value or a symbol. -/
def Line.Placeable (l : Line) : Prop :=
  match l.kind with
  | .origin .org a => ∃ v, a.constant 2 = .ok (some v)
  | .equate a => l.symbol?.isSome → ∃ v?, a.constant 2 = .ok v?
  | _ => True

namespace Pass

theorem equate_isOk_iff (pass : Pass) (l : NumberedLine) (a : Argument) :
  (∃ d?, pass.equate l a = .ok d?)
    ↔ (l.line.symbol?.isSome → ∃ v?, a.constant 2 = .ok v?)
  := by
  rw [equate, ← equateValue_isOk_iff pass.owner l.id]
  cases h : l.line.symbol? with
  | none => simp
  | some symbol =>
      cases hv : equateValue pass.owner l.id a with
      | error e => simp [bind, Except.bind]
      | ok v => simp [bind, Except.bind, pure, Except.pure]

theorem place_isOk_iff (pass : Pass) (base : UInt16) (l : NumberedLine) :
  (∃ p next, pass.place base l = .ok (p, next)) ↔ l.line.Placeable
  := by
  rw [place]
  split
  · next a hkind =>
    simp only [Line.Placeable, hkind]
    rw [← originValue_isOk_iff l.id]
    cases h : originValue l.id a with
    | error e => simp [bind, Except.bind]
    | ok v => simp [bind, Except.bind, pure, Except.pure]
  · next a hkind =>
    simp only [Line.Placeable, hkind]
    rw [← equate_isOk_iff pass]
    cases h : pass.equate l a with
    | error e => simp [bind, Except.bind]
    | ok v => simp [bind, Except.bind, pure, Except.pure]
  · next horg hequate =>
    have hplaceable : l.line.Placeable := by
      rw [Line.Placeable]
      split
      · next a hkind => cases horg a hkind
      · next a hkind => cases hequate a hkind
      · trivial
    apply iff_of_true _ hplaceable
    cases hdir : pass.direction with
    | forward => exact ⟨_, _, rfl⟩
    | backward => exact ⟨_, _, rfl⟩

/-- A visit succeeds when each of its lines can be placed. -/
theorem visit_isOk_iff (pass : Pass) :
    ∀ (base : UInt16) (lines : List NumberedLine),
      (∃ exit, (pass.visit base lines).outcome = .ok exit) ↔ ∀ l ∈ lines, l.line.Placeable
  | base, [] => by simp [visit]
  | base, l :: lines => by
      simp only [visit_cons_eq_ok_iff, List.forall_mem_cons]
      constructor
      · rintro ⟨exit, p, next, hplace, hrest⟩
        use (place_isOk_iff pass base l).mp ⟨p, next, hplace⟩
        apply (visit_isOk_iff pass next lines).mp ⟨exit, hrest⟩
      · rintro ⟨hl, hlines⟩
        obtain ⟨p, next, hplace⟩ := (place_isOk_iff pass base l).mpr hl
        obtain ⟨exit, hrest⟩ := (visit_isOk_iff pass next lines).mpr hlines
        use exit, p, next, hplace, hrest

end Pass

end Pep10
