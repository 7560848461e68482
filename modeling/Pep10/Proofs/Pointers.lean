import Pep10.Symbol.Resolve

/-!
# Pointers

A hop goes from an entry that holds a pointer to the entry that it points to, which is in the same
table or in a linked one.  An entry has at most one hop.  What an entry stands for is found at the
end of its hops: a number if there are at most thirty-two of them and the last entry is one, and
nothing if the last entry says nothing, if there are more hops, or if they go round in a circle.
-/

namespace Pep10

/-! ### Hops -/

/-- A number that a value stands for by itself: the bits of a constant that its mask selects, or
an address with its offset, which wraps. -/
inductive SymbolValue.Denotes : SymbolValue → UInt64 → Prop
  | constant (c : MaskedBits) : Denotes (.constant c) (c.bits &&& c.mask)
  | location (l : Location) {v : UInt64}
      (hv : v.toNat = (l.address.toNat + l.offset.toNat) % 65536) : Denotes (.location l) v

/-- The number that a value stands for by itself. -/
def SymbolValue.number? : SymbolValue → Option UInt64
  | .constant c => some c.value
  | .location l => some (l.address + l.offset).toUInt64
  | _ => none

theorem SymbolValue.number?_eq_some_iff {value : SymbolValue} {v : UInt64} :
  value.number? = some v ↔ value.Denotes v
  := by
  have hsum : ∀ l : Location, (l.address + l.offset).toUInt64.toNat
      = (l.address.toNat + l.offset.toNat) % 65536 := by
    intro l
    rw [UInt16.toNat_toUInt64, UInt16.toNat_add]
  constructor
  · intro h
    cases value with
    | constant c =>
        cases h
        apply Denotes.constant
    | location l =>
        cases h
        apply Denotes.location l (hsum l)
    | _ => cases h
  · intro h
    cases h with
    | constant c => rfl
    | location l hv =>
        apply congrArg some
        apply UInt64.toNat_inj.mp
        rw [hv, hsum]

namespace SymbolTable

/-- The first of some tables with the given identifier. -/
def IsFirst (tables : List SymbolTable) (id : TableId) (u : SymbolTable) : Prop :=
  ∃ before after, tables = before ++ u :: after ∧ u.id = id ∧ ∀ w ∈ before, w.id ≠ id

/-- A pointer leads from an entry to another one, which is in the same table or in the first linked
table with the identifier of the pointer. -/
inductive Hop (linked : List SymbolTable) :
    SymbolTable → SymbolId → SymbolTable → SymbolId → Prop
  | internal {t : SymbolTable} {i j : SymbolId} (h : t.value? i = some (.internal j)) :
      Hop linked t i t j
  | external {t u : SymbolTable} {i : SymbolId} {r : SymbolRef}
      (h : t.value? i = some (.external r)) (hu : IsFirst linked r.table u) :
      Hop linked t i u r.entry

/-- A number of hops that lead from an entry to another one. -/
inductive Hops (linked : List SymbolTable) :
    Nat → SymbolTable → SymbolId → SymbolTable → SymbolId → Prop
  | refl (t : SymbolTable) (i : SymbolId) : Hops linked 0 t i t i
  | step {n : Nat} {t u w : SymbolTable} {i j k : SymbolId} (h : Hop linked t i u j)
      (hrest : Hops linked n u j w k) : Hops linked (n + 1) t i w k

/-- An entry that leads nowhere and is no number: there is none, it has no value yet, or it points
into a table that is not linked. -/
inductive DeadEnd (linked : List SymbolTable) (t : SymbolTable) (i : SymbolId) : Prop
  | missing (h : t.get? i = none)
  | empty (h : t.value? i = some .empty)
  | unlinked {r : SymbolRef} (h : t.value? i = some (.external r))
      (hlinked : ∀ u ∈ linked, u.id ≠ r.table)

variable {t u w : SymbolTable} {linked : List SymbolTable} {i j k : SymbolId} {id : TableId}
  {n m hops : Nat} {v : UInt64}

/-! ### What an entry says -/

theorem find?_id_eq_some_iff :
  linked.find? (·.id == id) = some u ↔ IsFirst linked id u
  := by
  rw [List.find?_eq_some_iff_append, IsFirst]
  simp only [beq_iff_eq, Bool.not_eq_true', beq_eq_false_iff_ne]
  constructor
  · rintro ⟨hu, before, after, hlinked, hbefore⟩
    exact ⟨before, after, hlinked, hu, hbefore⟩
  · rintro ⟨before, after, hlinked, hu, hbefore⟩
    exact ⟨hu, before, after, hlinked, hbefore⟩

theorem find?_id_eq_none_iff :
  linked.find? (·.id == id) = none ↔ ∀ u ∈ linked, u.id ≠ id
  := by
  simp

theorem denotation_eq_number_iff :
  t.denotation linked i = .number v ↔ ∃ value, t.value? i = some value ∧ value.Denotes v
  := by
  unfold denotation
  constructor
  · intro h
    split at h
    · cases h
    · cases h
    · next hc =>
      cases h
      exact ⟨_, hc, SymbolValue.number?_eq_some_iff.mp rfl⟩
    · next hl =>
      cases h
      exact ⟨_, hl, SymbolValue.number?_eq_some_iff.mp rfl⟩
    · cases h
    · split at h
      · cases h
      · cases h
  · rintro ⟨value, hvalue, hv⟩
    rw [← SymbolValue.number?_eq_some_iff] at hv
    rw [hvalue]
    cases value with
    | constant c =>
        cases hv
        rfl
    | location l =>
        cases hv
        rfl
    | _ => cases hv

theorem denotation_eq_pointer_iff :
  t.denotation linked i = .pointer u j ↔ Hop linked t i u j
  := by
  unfold denotation
  constructor
  · intro h
    split at h
    · cases h
    · cases h
    · cases h
    · cases h
    · next hi =>
      cases h
      apply Hop.internal hi
    · next hi =>
      split at h
      · cases h
      · next hu =>
        cases h
        apply Hop.external hi (find?_id_eq_some_iff.mp hu)
  · intro h
    cases h with
    | internal hi => rw [hi]
    | external hi hu =>
        rw [hi]
        simp only [find?_id_eq_some_iff.mpr hu]

theorem denotation_eq_unknown_iff :
  t.denotation linked i = .unknown ↔ DeadEnd linked t i
  := by
  unfold denotation
  constructor
  · intro h
    split at h
    · next hi => apply DeadEnd.missing (Option.map_eq_none_iff.mp hi)
    · next hi => apply DeadEnd.empty hi
    · cases h
    · cases h
    · cases h
    · next hi =>
      split at h
      · next hu => apply DeadEnd.unlinked hi (find?_id_eq_none_iff.mp hu)
      · cases h
  · intro h
    cases h with
    | missing hi => rw [value?, hi, Option.map_none]
    | empty hi => rw [hi]
    | unlinked hi hlinked =>
        rw [hi]
        simp only [find?_id_eq_none_iff.mpr hlinked]

/-! ### Following hops -/

/-- A number is found at the end of hops that are not too many. -/
theorem resolveWithin_eq_some_iff :
  resolveWithin linked hops t i = some v
    ↔ ∃ n u j value, n ≤ hops ∧ Hops linked n t i u j ∧ u.value? j = some value ∧ value.Denotes v
  := by
  constructor
  · intro h
    fun_induction resolveWithin linked hops t i with
    | case1 => cases h
    | case2 hops t i _ hd =>
        cases h
        obtain ⟨value, hvalue, hv⟩ := denotation_eq_number_iff.mp hd
        exact ⟨0, t, i, value, Nat.zero_le hops, .refl t i, hvalue, hv⟩
    | case3 => cases h
    | case4 t i u j hd hops ih =>
        obtain ⟨n, w, k, value, hle, hhops, hvalue, hv⟩ := ih h
        have hhop := denotation_eq_pointer_iff.mp hd
        exact ⟨n + 1, w, k, value, Nat.succ_le_succ hle, .step hhop hhops, hvalue, hv⟩
  · rintro ⟨n, u, j, value, hle, hhops, hvalue, hv⟩
    induction hhops generalizing hops with
    | refl t i => rw [resolveWithin, denotation_eq_number_iff.mpr ⟨value, hvalue, hv⟩]
    | step hhop _ ih =>
        obtain ⟨hops, rfl⟩ := Nat.exists_eq_add_of_le' (Nat.zero_lt_of_lt hle)
        rw [resolveWithin, denotation_eq_pointer_iff.mpr hhop]
        apply ih (Nat.le_of_succ_le_succ hle) hvalue

/-- Nothing is found at a dead end, or when there are more hops than are followed. -/
theorem resolveWithin_eq_none_iff :
  resolveWithin linked hops t i = none
    ↔ (∃ n u j, n ≤ hops ∧ Hops linked n t i u j ∧ DeadEnd linked u j)
      ∨ ∃ n u j, hops < n ∧ Hops linked n t i u j
  := by
  constructor
  · intro h
    fun_induction resolveWithin linked hops t i with
    | case1 hops t i hd =>
        left
        exact ⟨0, t, i, Nat.zero_le hops, .refl t i, denotation_eq_unknown_iff.mp hd⟩
    | case2 => cases h
    | case3 t i u j hd =>
        right
        exact ⟨1, u, j, Nat.zero_lt_one, .step (denotation_eq_pointer_iff.mp hd) (.refl u j)⟩
    | case4 t i u j hd hops ih =>
        have hhop := denotation_eq_pointer_iff.mp hd
        obtain ⟨n, w, k, hle, hhops, hend⟩ | ⟨n, w, k, hlt, hhops⟩ := ih h
        · left
          exact ⟨n + 1, w, k, Nat.succ_le_succ hle, .step hhop hhops, hend⟩
        · right
          exact ⟨n + 1, w, k, Nat.succ_lt_succ hlt, .step hhop hhops⟩
  · rintro (⟨n, u, j, hle, hhops, hend⟩ | ⟨n, u, j, hlt, hhops⟩)
    · induction hhops generalizing hops with
      | refl t i => rw [resolveWithin, denotation_eq_unknown_iff.mpr hend]
      | step hhop _ ih =>
          obtain ⟨hops, rfl⟩ := Nat.exists_eq_add_of_le' (Nat.zero_lt_of_lt hle)
          rw [resolveWithin, denotation_eq_pointer_iff.mpr hhop]
          apply ih (Nat.le_of_succ_le_succ hle) hend
    · induction hhops generalizing hops with
      | refl t i => cases hlt
      | step hhop _ ih =>
          rw [resolveWithin, denotation_eq_pointer_iff.mpr hhop]
          cases hops with
          | zero => rfl
          | succ hops => apply ih (Nat.lt_of_succ_lt_succ hlt)

/-! ### Circles -/

theorem Hops.trans (h : Hops linked n t i u j) (h' : Hops linked m u j w k) :
  Hops linked (n + m) t i w k
  := by
  induction h with
  | refl t i =>
      rw [Nat.zero_add]
      apply h'
  | step hhop _ ih =>
      rw [Nat.add_right_comm]
      apply Hops.step hhop (ih h')

/-- Hops that come back can be made any number of times. -/
theorem Hops.iterate (h : Hops linked n t i t i) (times : Nat) :
  Hops linked (times * n) t i t i
  := by
  induction times with
  | zero =>
      rw [Nat.zero_mul]
      apply Hops.refl
  | succ times ih =>
      rw [Nat.succ_mul]
      apply ih.trans h

/-- Nothing is found by hops that come to a circle. -/
theorem resolveWithin_eq_none_of_circle (h : Hops linked n t i u j)
    (hcircle : Hops linked (m + 1) u j u j) (hops : Nat) :
  resolveWithin linked hops t i = none
  := by
  apply resolveWithin_eq_none_iff.mpr
  right
  refine ⟨n + (hops + 1) * (m + 1), u, j, ?_, ?_⟩
  · calc hops < hops + 1 := Nat.lt_succ_self hops
      _ ≤ (hops + 1) * (m + 1) := Nat.le_mul_of_pos_right _ (Nat.succ_pos m)
      _ ≤ n + (hops + 1) * (m + 1) := Nat.le_add_left _ n
  · apply h.trans (hcircle.iterate (hops + 1))

/-! ### The law of resolution -/

theorem owns_iff {r : SymbolRef} :
  t.owns r ↔ t.id = r.table
  := by
  rw [owns, decide_eq_true_eq, eq_comm]

theorem resolveRef_of_ne {r : SymbolRef} (hr : r.table ≠ t.id) :
  t.resolveRef r linked = (linked.find? (·.id == r.table)).bind (·.resolve r.entry linked)
  := by
  have howns : (fun u : SymbolTable => u.owns r) = fun u => u.id == r.table := by
    funext u
    apply Bool.eq_iff_iff.mpr
    rw [owns_iff, beq_iff_eq]
  rw [resolveRef, if_neg, howns]
  rw [owns_iff]
  apply Ne.symm hr

/-- What the entries of a table stand for, when it is linked with others. -/
structure ResolutionLaw (linked : List SymbolTable) (t : SymbolTable) : Prop where
  some_iff : ∀ i v, t.resolve i linked = some v
    ↔ ∃ n u j value, n ≤ 32 ∧ Hops linked n t i u j ∧ u.value? j = some value ∧ value.Denotes v
  none_iff : ∀ i, t.resolve i linked = none
    ↔ (∃ n u j, n ≤ 32 ∧ Hops linked n t i u j ∧ DeadEnd linked u j)
      ∨ ∃ n u j, 32 < n ∧ Hops linked n t i u j
  none_of_circle : ∀ i n m u j, Hops linked n t i u j → Hops linked (m + 1) u j u j →
    t.resolve i linked = none
  own : ∀ r, r.table = t.id → t.resolveRef r linked = t.resolve r.entry linked
  other : ∀ r u, r.table ≠ t.id → IsFirst linked r.table u →
    t.resolveRef r linked = u.resolve r.entry linked
  unowned : ∀ r, r.table ≠ t.id → (∀ u ∈ linked, u.id ≠ r.table) → t.resolveRef r linked = none

/-- An entry stands for the number at the end of at most thirty-two hops, and for nothing in every
other case; a reference stands for what its own table gives its entry. -/
theorem resolutionLaw (linked : List SymbolTable) (t : SymbolTable) :
  t.ResolutionLaw linked
  where
  some_iff _ _ := resolveWithin_eq_some_iff
  none_iff _ := resolveWithin_eq_none_iff
  none_of_circle _ _ _ _ _ h hcircle := resolveWithin_eq_none_of_circle h hcircle maxHops
  own r hr := by
    rw [resolveRef, if_pos]
    apply owns_iff.mpr hr.symm
  other r u hr hu := by
    rw [resolveRef_of_ne hr, find?_id_eq_some_iff.mpr hu, Option.bind_some]
  unowned r hr hlinked := by
    rw [resolveRef_of_ne hr, find?_id_eq_none_iff.mpr hlinked, Option.bind_none]

/-- A circle through two tables. -/
example :
  let t : SymbolTable := ⟨0, [{ name := "a", value := .external ⟨1, 0⟩ }]⟩
  let u : SymbolTable := ⟨1, [{ name := "a", value := .external ⟨0, 0⟩ }]⟩
  t.resolve 0 [t, u] = none
  := rfl

end SymbolTable

end Pep10
