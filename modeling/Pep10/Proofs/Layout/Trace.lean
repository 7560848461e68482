import Pep10.Layout.Assign
import Pep10.Proofs.Layout.Walk

/-!
# Traces

What is left of a layout that may have failed.  Every placement in its trace was made by placing a
line, and if it failed, then because a line could not be placed, or because there was no schedule.
This needs nothing of the sections that are laid out.
-/

namespace Pep10

namespace Traced

variable {α β : Type}

/-- Placements made by placing lines, and no error but that of a line that could not be placed. -/
structure Placing (t : Traced α) : Prop where
  placed : ∀ p ∈ t.placements,
    ∃ (pass : Pass) (next : UInt16), pass.place p.base p.line = .ok (p, next)
  failed : ∀ e, t.outcome = .error e →
    ∃ (pass : Pass) (base : UInt16) (l : NumberedLine), pass.place base l = .error e

theorem placing_pure (a : α) :
  Placing (pure a)
  := by
  constructor
  · simp
  · simp

theorem Placing.bind {t : Traced α} {f : α → Traced β} (ht : t.Placing) (hf : ∀ a, (f a).Placing) :
  (t >>= f).Placing
  := by
  obtain ⟨ps, e | a⟩ := t
  · exact ⟨ht.placed, fun e' he' => ht.failed e' (by cases he'; rfl)⟩
  · exact ⟨List.forall_mem_append.mpr ⟨ht.placed, (hf a).placed⟩, (hf a).failed⟩

theorem placing_foldlM {f : α → β → Traced α} (hf : ∀ a b, (f a b).Placing) (bs : List β) (a : α) :
  (bs.foldlM f a).Placing
  := by
  induction bs generalizing a with
  | nil => apply placing_pure
  | cons b bs ih =>
      rw [List.foldlM_cons]
      apply (hf a b).bind ih

end Traced

theorem equateValue_literal_eq_ok_iff {owner : TableId} {line : LineId} {literal : Literal}
    {value : SymbolValue} :
  equateValue owner line (.literal literal) = .ok value
    ↔ ∃ v, literal.value 2 = .ok v ∧ value = .constant (.word v)
  := by
  rw [equateValue]
  split
  · next v hv => simp [hv, eq_comm]
  · next e he => simp [he]

theorem equateValue_ne_empty {owner : TableId} {line : LineId} {argument : Argument}
    {value : SymbolValue} (h : equateValue owner line argument = .ok value) :
  value ≠ .empty
  := by
  cases argument with
  | symbolic name r =>
      cases h
      split
      · nofun
      · nofun
  | literal literal =>
      obtain ⟨v, -, rfl⟩ := equateValue_literal_eq_ok_iff.mp h
      nofun

namespace Pass

/-- A line gives the symbol it declares a place, or the value of its operand. -/
theorem value_of_place {pass : Pass} {base next : UInt16} {l : NumberedLine} {p : Placement}
    (h : pass.place base l = .ok (p, next)) {d : Definition} (hd : p.definition? = some d) :
  (∃ place, d.value = .location place)
    ∨ ∃ (owner : TableId) (line : LineId) (a : Argument), equateValue owner line a = .ok d.value
  := by
  have hlabel : ∀ address size, pass.label l address size = some d →
      ∃ place, d.value = .location place := by
    intro address size hd
    obtain ⟨symbol, -, rfl⟩ := Option.map_eq_some_iff.mp hd
    exact ⟨_, rfl⟩
  obtain ⟨_, _, _, rfl⟩ | ⟨a, d?, _, hequate, _, rfl⟩ | ⟨_, _, _, _, rfl⟩
    | ⟨_, _, _, _, _, _, rfl⟩ := place_cases h
  · exact .inl (hlabel _ _ hd)
  · obtain rfl := hd
    rw [equate] at hequate
    split at hequate
    · cases hequate
    · obtain ⟨value, hvalue, hequate⟩ := Except.bind_eq_ok_iff.mp hequate
      cases hequate
      exact .inr ⟨_, _, _, hvalue⟩
  · exact .inl (hlabel _ _ hd)
  · exact .inl (hlabel _ _ hd)

theorem placing_visit (pass : Pass) (base : UInt16) (lines : List NumberedLine) :
  (pass.visit base lines).Placing
  := by
  induction lines generalizing base with
  | nil => apply Traced.placing_pure
  | cons l lines ih =>
      rw [visit]
      split
      · next e hplace =>
        constructor
        · simp [Traced.fail]
        · rintro _ ⟨⟩
          exact ⟨pass, base, l, hplace⟩
      · next p next hplace =>
        refine ⟨List.forall_mem_cons.mpr ⟨⟨pass, next, ?_⟩, (ih next).placed⟩, (ih next).failed⟩
        rw [place_base hplace, place_line hplace, hplace]

theorem placing_walk (pass : Pass) (base : UInt16) (lines : List NumberedLine) :
  (pass.walk base lines).Placing
  := by
  have hvisit := pass.placing_visit base (pass.direction.order lines)
  constructor
  · apply hvisit.placed
  · intro e he
    apply hvisit.failed
    rw [walk] at he
    cases houtcome : (pass.visit base (pass.direction.order lines)).outcome with
    | error e' =>
        rw [houtcome] at he
        cases he
        rfl
    | ok exit =>
        rw [houtcome] at he
        cases he

end Pass

theorem Progress.placing_step (owner : TableId) (p : Progress) (s : Step) :
  (p.step owner s).Placing
  := by
  cases s with
  | anchor index split origin =>
      apply (Pass.placing_walk _ _ _).bind
      intro before
      apply (Pass.placing_walk _ _ _).bind
      intro after
      apply Traced.placing_pure
  | walk index direction =>
      cases direction with
      | forward =>
          apply (Pass.placing_walk _ _ _).bind
          intro w
          apply Traced.placing_pure
      | backward =>
          apply (Pass.placing_walk _ _ _).bind
          intro w
          apply Traced.placing_pure

section

variable {owner : TableId} {sections : List Section} {base : UInt16}

theorem placing_assign_of_schedule {steps : List Step} (h : schedule sections base = .ok steps) :
  (assign owner sections base).Placing
  := by
  rw [assign, h]
  apply (Traced.placing_foldlM (Progress.placing_step owner) _ _).bind
  intro p
  apply Traced.placing_pure

/-- Every placement of a layout, also of one that fails, is made by placing its line. -/
theorem exists_place_of_mem_assign :
  ∀ p ∈ (assign owner sections base).placements,
    ∃ (pass : Pass) (next : UInt16), pass.place p.base p.line = .ok (p, next)
  := by
  cases h : schedule sections base with
  | error e => simp [assign, h, Traced.fail]
  | ok steps => apply (placing_assign_of_schedule h).placed

/-- The definitions of a layout give symbols places, or the values of operands. -/
theorem value_of_mem_definitions {d : Definition}
    (hd : d ∈ (assign owner sections base).placements.filterMap (·.definition?)) :
  (∃ place, d.value = .location place)
    ∨ ∃ (owner : TableId) (line : LineId) (a : Argument), equateValue owner line a = .ok d.value
  := by
  obtain ⟨p, hp, hd⟩ := List.mem_filterMap.mp hd
  obtain ⟨pass, next, hplace⟩ := exists_place_of_mem_assign p hp
  apply Pass.value_of_place hplace hd

/-- A layout fails when it has no schedule, or at a line that cannot be placed. -/
theorem assign_eq_error {e : AssemblyError} (he : (assign owner sections base).outcome = .error e) :
  schedule sections base = .error e
    ∨ ∃ (pass : Pass) (base : UInt16) (l : NumberedLine), pass.place base l = .error e
  := by
  cases h : schedule sections base with
  | error e' =>
      rw [assign, h] at he
      cases he
      left
      rfl
  | ok steps =>
      right
      apply (placing_assign_of_schedule h).failed e he

end

end Pep10
