import Pep10.Proofs.ObjectCode
import Pep10.Proofs.Layout.Bounds
import Mathlib.Data.List.Pairwise
import Mathlib.Data.Set.Lattice
import Mathlib.Order.CompletePartialOrder

/-!
# Lines do not overlap

Addresses wrap around at the end of memory, so that what is laid out from a base upward can come
to lie below it.  As long as a program has no more bytes than there are addresses, and no second
`.ORG` sends a line back to where others are, each byte has an address of its own.  For then the
lines tile one stretch of memory, on both sides of the first origin.
-/

namespace Pep10

/-- The addresses of the bytes of a line. -/
def Address.range (e : Address) : Set UInt16 :=
  {x | ∃ i < e.size.toNat, x = e.address + UInt16.ofNat i}

/-- The addresses of the bytes that a placed line takes. -/
def Placement.range (p : Placement) : Set UInt16 :=
  Address.range ⟨p.address, p.size⟩

theorem size_ne_zero {size : UInt16} {i : Nat} (h : i < size.toNat) :
  size ≠ 0
  := by
  rintro rfl
  cases h

namespace Tiled

variable {c d x : UInt16} {p : Placement} {ps : List Placement}

/-- A byte of an unbroken tiling lies less than its length from its start. -/
theorem exists_offset (h : Tiled c ps d) (horg : ∀ p ∈ ps, ¬ p.line.IsOrg) (hp : p ∈ ps)
    (hx : x ∈ p.range) :
  ∃ n < totalSize ps, x = c + UInt16.ofNat n
  := by
  induction ps generalizing c with
  | nil => cases hp
  | cons q ps ih =>
      rw [List.forall_mem_cons] at horg
      obtain ⟨haddress, hrest⟩ := (cons_iff horg.1).mp h
      rcases List.mem_cons.mp hp with rfl | hp
      · obtain ⟨i, hi, rfl⟩ := hx
        use i, Nat.lt_add_right _ hi
        rw [haddress (size_ne_zero hi)]
      · obtain ⟨n, hn, rfl⟩ := ih hrest horg.2 hp
        use q.size.toNat + n, Nat.add_lt_add_left hn _
        rw [UInt16.ofNat_add, UInt16.ofNat_toNat, UInt16.add_assoc]

/-- An unbroken tiling that is not longer than memory does not overlap itself. -/
theorem pairwise_disjoint (h : Tiled c ps d) (horg : ∀ p ∈ ps, ¬ p.line.IsOrg)
    (htotal : totalSize ps ≤ 65536) :
  ps.Pairwise fun p q => Disjoint p.range q.range
  := by
  induction ps generalizing c with
  | nil => apply List.Pairwise.nil
  | cons p ps ih =>
      rw [List.forall_mem_cons] at horg
      obtain ⟨haddress, hrest⟩ := (cons_iff horg.1).mp h
      rw [totalSize] at htotal
      apply List.Pairwise.cons _ (ih hrest horg.2 (by omega))
      intro q hq
      rw [Set.disjoint_left]
      rintro x ⟨i, hi, rfl⟩ hx
      replace hi : i < p.size.toNat := hi
      obtain ⟨n, hn, heq⟩ := hrest.exists_offset horg.2 hq hx
      -- both offsets from `c` are below the size of memory, so they would have to be equal
      rw [haddress (size_ne_zero hi), UInt16.add_assoc, UInt16.add_right_inj] at heq
      have hnat := congrArg UInt16.toNat heq
      simp only [UInt16.toNat_add, UInt16.toNat_ofNat'] at hnat
      omega

end Tiled

/-! ### One stretch of memory -/

/-- With at most one `.ORG`, the lines with bytes tile one stretch of memory. -/
theorem Sides.exists_unbroken {base c origin d : UInt16} {order : List NumberedLine}
    {t : LineTable Address} {below above : List Placement}
    (h : Sides base order t c origin d below above) (hone : order.countP (·.IsOrg) ≤ 1) :
  ∃ ps, Tiled c ps d ∧ (∀ p ∈ ps, ¬ p.line.IsOrg)
    ∧ ps.filterMap Placement.entry? = (below ++ above).filterMap Placement.entry?
  := by
  cases hfind : order.find? (·.IsOrg) with
  | none =>
      use below ++ above, h.tiled
      refine ⟨?_, rfl⟩
      intro p hp
      have hmem : p.line ∈ order := h.lines_eq ▸ List.mem_map_of_mem hp
      simpa using List.find?_eq_none.mp hfind p.line hmem
  | some l =>
      -- the `.ORG` is the first line above the origin, and the origin is its value
      have hl : l.IsOrg := by simpa using List.find?_some hfind
      obtain ⟨argument, hargument⟩ := Option.isSome_iff_exists.mp hl
      obtain ⟨⟨rest, hrest⟩, horigin⟩ := h.of_org hfind hargument
      obtain ⟨q, qs, rfl, rfl, rfl⟩ := List.map_eq_cons_iff.mp hrest
      have hfaithful := h.entered.faithful q (by simp)
      have hsize : q.size = 0 := by
        by_contra hsize
        apply hfaithful.not_org hsize hl
      have haddress : q.address = origin :=
        Except.ok.inj ((hfaithful.origin_eq hargument).symm.trans horigin)
      have habove := (Tiled.cons_org_iff hl).mp h.above_tiled
      rw [haddress] at habove
      have horg : ∀ p ∈ qs, ¬ p.line.IsOrg := by
        rw [← h.lines_eq, List.map_append, List.map_cons, List.countP_append,
          List.countP_cons_of_pos (by simpa using hl)] at hone
        have hzero : (qs.map (·.line)).countP (·.IsOrg) = 0 := by omega
        intro p hp
        simpa using List.countP_eq_zero.mp hzero p.line (List.mem_map_of_mem hp)
      use below ++ qs, h.below_tiled.append habove
      constructor
      · rw [List.forall_mem_append]
        use fun p hp => h.below_org p.line (List.mem_map_of_mem hp), horg
      · rw [List.filterMap_append, List.filterMap_append,
          List.filterMap_cons_none (by rw [Placement.entry?, if_pos hsize])]

theorem sum_size_entries (ps : List Placement) :
  ((ps.filterMap Placement.entry?).map (·.2.size.toNat)).sum = totalSize ps
  := by
  induction ps with
  | nil => rfl
  | cons p ps ih =>
      by_cases hsize : p.size = 0
      · rw [List.filterMap_cons_none (by rw [Placement.entry?, if_pos hsize]), ih, totalSize,
          hsize]
        simp
      · rw [List.filterMap_cons_some (by rw [Placement.entry?, if_neg hsize]), List.map_cons,
          List.sum_cons, ih, totalSize]

/-- The sizes in an address table add up to those of the placements. -/
theorem Traced.sum_size_addresses {α : Type} {t : Traced α}
    (hnodup : (t.placements.map (·.line.id)).Nodup) :
  (t.addresses.toList.map (·.2.size.toNat)).sum = totalSize t.placements
  := by
  rw [addresses, ((LineTable.toList_ofInserts_perm (nodup_entries hnodup)).map _).sum_eq,
    sum_size_entries]

section

variable {program : Program} {symbols : SymbolTable} {initial : Heading}
  {sections laid : List Section} {base : UInt16}

/-- With at most one `.ORG`, the entries of a layout are those of lines that tile one stretch of
memory. -/
theorem assign_unbroken (hsections : program.sections symbols initial = .ok sections)
    (hassign : (assign symbols.id sections base).outcome = .ok laid)
    (hone : (sectionOrder sections).countP (·.IsOrg) ≤ 1) :
  ∃ c d ps, Tiled c ps d ∧ (∀ p ∈ ps, ¬ p.line.IsOrg)
    ∧ (assign symbols.id sections base).addresses.entriesOf (sectionOrder sections)
      = ps.filterMap Placement.entry?
    ∧ ((assign symbols.id sections base).addresses.toList.map (·.2.size.toNat)).sum = totalSize ps
  := by
  obtain ⟨_, _, below, above, -, hfrontier, hsides⟩ := assign_sides hsections hassign
  obtain ⟨ps, htiled, horg, hentries⟩ := hsides.exists_unbroken hone
  have hids := Program.nodup_sectionOrder hsections
  rw [← ((assign_lines_perm hsections hassign).map (·.id)).nodup_iff, List.map_map] at hids
  refine ⟨_, _, ps, htiled, horg, ?_, ?_⟩
  · rw [← hsides.lines_eq, hsides.entered.entriesOf_eq, hentries]
  · rw [Traced.sum_size_addresses hids, totalSize_perm hfrontier.perm, ← sum_size_entries,
      ← hentries, sum_size_entries]

theorem assign_pairwise_disjoint (hsections : program.sections symbols initial = .ok sections)
    (hassign : (assign symbols.id sections base).outcome = .ok laid)
    (hone : (sectionOrder sections).countP (·.IsOrg) ≤ 1)
    (htotal : ((assign symbols.id sections base).addresses.toList.map (·.2.size.toNat)).sum
      ≤ 65536) :
  ∃ ps : List Placement, (ps.Pairwise fun p q => Disjoint p.range q.range)
    ∧ ∀ {line e}, (assign symbols.id sections base).addresses.get? line = some e →
      ∃ p ∈ ps, p.line.id = line ∧ p.range = e.range
  := by
  obtain ⟨_, _, ps, htiled, horg, hentries, hsum⟩ := assign_unbroken hsections hassign hone
  rw [hsum] at htotal
  use ps, htiled.pairwise_disjoint horg htotal
  intro line e he
  obtain ⟨l, hl, hline⟩ := exists_line_of_get?_addresses hsections hassign he
  have hmem := LineTable.mem_entriesOf_iff.mpr ⟨List.mem_map.mpr ⟨l, hl, hline⟩, he⟩
  rw [hentries] at hmem
  obtain ⟨p, hp, hentry⟩ := List.mem_filterMap.mp hmem
  rw [Placement.entry?] at hentry
  split at hentry
  · cases hentry
  · cases hentry
    use p, hp, rfl
    rfl

end

/-- In an assembled program with at most one `.ORG`, and with no more bytes than there are
addresses, no two lines have a byte at one address. -/
theorem assemble_disjoint {program : Program} {symbols : SymbolTable} {options : Options}
    {a : Assembly} (h : (assemble program symbols options).outcome = .ok a)
    (hone : program.numbered.countP (·.IsOrg) ≤ 1)
    (htotal : (a.addresses.toList.map (·.2.size.toNat)).sum ≤ 65536) {line₁ line₂ : LineId}
    {e₁ e₂ : Address} (he₁ : a.addresses.get? line₁ = some e₁)
    (he₂ : a.addresses.get? line₂ = some e₂) (hne : line₁ ≠ line₂) :
  Disjoint e₁.range e₂.range
  := by
  obtain ⟨sections, hsections, hassign, haddresses, -, -⟩ := exists_layout_of_assemble h
  rw [haddresses] at htotal he₁ he₂
  have hone' : (sectionOrder sections).countP (·.IsOrg) ≤ 1 := by
    rw [(Program.sectionOrder_perm hsections).countP_eq]
    apply hone
  obtain ⟨ps, hps, hentry⟩ := assign_pairwise_disjoint hsections hassign hone' htotal
  obtain ⟨p₁, hp₁, rfl, hrange₁⟩ := hentry he₁
  obtain ⟨p₂, hp₂, rfl, hrange₂⟩ := hentry he₂
  rw [← hrange₁, ← hrange₂]
  have : Std.Symm fun p q : Placement => Disjoint p.range q.range := ⟨fun _ _ h => h.symm⟩
  apply hps.forall hp₁ hp₂
  rintro rfl
  apply hne rfl

/-- A program whose first line lies at both ends of memory. -/
def Program.wrapped : Program :=
  [{ kind := .data .word (.literal (.decimal 1)) },
    { kind := .origin .org (.literal (.hexadecimal 0x0001)) },
    { kind := .data .byte (.literal (.decimal 2)) }]

theorem addresses_assemble_wrapped :
  (assemble .wrapped { id := 0 } {}).outcome.map
    (fun a => (a.addresses.toList, a.addresses.get? 0, a.addresses.get? 2))
    = .ok ([(0, ⟨0xFFFF, 2⟩), (2, ⟨0x0001, 1⟩)], some ⟨0xFFFF, 2⟩, some ⟨0x0001, 1⟩)
  := by
  cbv

theorem assemble_disjoint_wrapped :
  ∃ a, (assemble .wrapped { id := 0 } {}).outcome = .ok a
    ∧ Program.wrapped.numbered.countP (·.IsOrg) ≤ 1
    ∧ (a.addresses.toList.map (·.2.size.toNat)).sum ≤ 65536
    ∧ a.addresses.get? 0 = some ⟨0xFFFF, 2⟩ ∧ a.addresses.get? 2 = some ⟨0x0001, 1⟩
    ∧ Disjoint (Address.range ⟨0xFFFF, 2⟩) (Address.range ⟨0x0001, 1⟩)
  := by
  obtain ⟨a, ha, haddresses⟩ := Except.map_eq_ok_iff.mp addresses_assemble_wrapped
  rw [Prod.mk.injEq, Prod.mk.injEq] at haddresses
  obtain ⟨hlist, hfirst, hlast⟩ := haddresses
  have hone : Program.wrapped.numbered.countP (·.IsOrg) ≤ 1 := by decide
  have htotal : (a.addresses.toList.map (·.2.size.toNat)).sum ≤ 65536 := by
    rw [hlist]
    decide
  use a, ha, hone, htotal, hfirst, hlast
  apply assemble_disjoint ha hone htotal hfirst hlast (by decide)

end Pep10
