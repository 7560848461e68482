import Pep10.Proofs.Disjoint
import Pep10.Proofs.Layout.Bounds
import Pep10.Proofs.StoredLines

/-!
# Lines one above the other

In a program with at most one `.ORG` the lines with bytes follow each other without a gap, up to
wrapping around at the end of memory.  If the last of them ends within memory then nothing wraps
around, and their addresses increase as numbers in the order of the sections.
-/

namespace Pep10

/-- An address of a byte of a line that does not wrap around. -/
def Address.Covers (e : Address) (x : Nat) : Prop :=
  e.address.toNat ≤ x ∧ x < e.address.toNat + e.size.toNat

instance (e : Address) (x : Nat) : Decidable (e.Covers x) :=
  inferInstanceAs (Decidable (_ ∧ _))

/-- Entries that lie one above the other from the address `n` on. -/
def Stacked : Nat → List (LineId × Address) → Prop
  | _, [] => True
  | n, x :: xs => x.2.address.toNat = n ∧ Stacked (n + x.2.size.toNat) xs

/-- Entries that follow each other from the address `n` on, around the end of memory. -/
def Wound : Nat → List (LineId × Address) → Prop
  | _, [] => True
  | n, x :: xs => x.2.address.toNat = n % 65536 ∧ Wound (n + x.2.size.toNat) xs

/-- Entries each of which ends before the next ones begin. -/
def Ascending (xs : List (LineId × Address)) : Prop :=
  xs.Pairwise fun x y => x.2.address.toNat + x.2.size.toNat ≤ y.2.address.toNat

namespace Stacked

variable {n : Nat} {xs : List (LineId × Address)} {x : LineId × Address}

theorem bounds (h : Stacked n xs) (hx : x ∈ xs) :
  n ≤ x.2.address.toNat
    ∧ x.2.address.toNat + x.2.size.toNat ≤ n + (xs.map (·.2.size.toNat)).sum
  := by
  induction xs generalizing n with
  | nil => cases hx
  | cons y xs ih =>
      obtain ⟨hy, hrest⟩ := h
      rw [List.map_cons, List.sum_cons]
      rcases List.mem_cons.mp hx with rfl | hx
      · omega
      · have hbounds := ih hrest hx
        omega

theorem ascending (h : Stacked n xs) :
  Ascending xs
  := by
  induction xs generalizing n with
  | nil => apply List.Pairwise.nil
  | cons x xs ih =>
      obtain ⟨rfl, hrest⟩ := h
      apply List.Pairwise.cons _ (ih hrest)
      intro y hy
      apply (hrest.bounds hy).1

/-- There is no gap between the entries. -/
theorem exists_covers (h : Stacked n xs) {z : Nat} (hle : n ≤ z)
    (hlt : z < n + (xs.map (·.2.size.toNat)).sum) :
  ∃ x ∈ xs, x.2.Covers z
  := by
  induction xs generalizing n with
  | nil =>
      rw [List.map_nil, List.sum_nil] at hlt
      omega
  | cons y xs ih =>
      obtain ⟨rfl, hrest⟩ := h
      rw [List.map_cons, List.sum_cons] at hlt
      by_cases hz : z < y.2.address.toNat + y.2.size.toNat
      · use y, List.mem_cons_self, hle, hz
      · obtain ⟨x, hx, hcovers⟩ := ih hrest (by omega) (by omega)
        use x, List.mem_cons_of_mem y hx

end Stacked

/-- Entries that end within memory are stacked. -/
theorem Wound.stacked {n m : Nat} {xs : List (LineId × Address)} (h : Wound n xs)
    (hpos : ∀ x ∈ xs, 0 < x.2.size.toNat) (hm : n % 65536 = m % 65536)
    (hfit : m + (xs.map (·.2.size.toNat)).sum ≤ 65536) :
  Stacked m xs
  := by
  induction xs generalizing n m with
  | nil => trivial
  | cons x xs ih =>
      rw [List.forall_mem_cons] at hpos
      rw [List.map_cons, List.sum_cons] at hfit
      obtain ⟨haddress, hrest⟩ := h
      constructor
      · -- a line with bytes starts below the end of memory, so that `m` is its address
        rw [haddress, hm, Nat.mod_eq_of_lt (by omega)]
      · apply ih hrest hpos.2
        · omega
        · omega

/-- The lines of an unbroken tiling follow each other. -/
theorem Tiled.wound {c d : UInt16} {ps : List Placement} (h : Tiled c ps d)
    (horg : ∀ p ∈ ps, ¬ p.line.IsOrg) {n : Nat} (hn : n % 65536 = c.toNat) :
  Wound n (ps.filterMap Placement.entry?)
  := by
  induction ps generalizing c n with
  | nil => trivial
  | cons p ps ih =>
      rw [List.forall_mem_cons] at horg
      obtain ⟨haddress, hrest⟩ := (cons_iff horg.1).mp h
      have hnext : (n + p.size.toNat) % 65536 = (c + p.size).toNat := by
        rw [UInt16.toNat_add, ← hn, Nat.mod_add_mod]
      replace ih := ih hrest horg.2 hnext
      by_cases hsize : p.size = 0
      · rw [List.filterMap_cons_none (by rw [Placement.entry?, if_pos hsize])]
        rw [hsize] at ih
        apply ih
      · rw [List.filterMap_cons_some (by rw [Placement.entry?, if_neg hsize])]
        use (congrArg UInt16.toNat (haddress hsize)).trans hn.symm, ih

theorem size_pos_of_mem_entries {ps : List Placement} {x : LineId × Address}
    (hx : x ∈ ps.filterMap Placement.entry?) :
  0 < x.2.size.toNat
  := by
  obtain ⟨p, -, hp⟩ := List.mem_filterMap.mp hx
  rw [Placement.entry?] at hp
  split at hp
  · cases hp
  · next hsize =>
    cases hp
    apply Nat.pos_of_ne_zero fun hzero => hsize (UInt16.toNat_inj.mp hzero)

/-! ### Assembled programs -/

namespace Assembly

/-- The lines with an address in the order of the sections. -/
def addressedLines (a : Assembly) : List (LineId × Address) :=
  a.addresses.entriesOf (sectionOrder a.sections)

theorem storedLines_sublist (a : Assembly) :
  a.storedLines.Sublist a.addressedLines
  := by
  rw [storedLines, addressedLines, LineTable.entriesOf_sectionOrder]
  apply List.Sublist.flatMap_right
  intro s _
  rw [storedIn]
  split
  · apply List.nil_sublist
  · apply List.Sublist.refl

theorem mem_addressedLines_of_stores {a : Assembly} {line : LineId} {e : Address}
    (h : a.Stores line e) :
  (line, e) ∈ a.addressedLines
  := a.storedLines_sublist.mem (mem_storedLines_iff.mpr h)

end Assembly

section

variable {program : Program} {symbols : SymbolTable} {options : Options} {a : Assembly}

/-- With at most one `.ORG`, the lines of a program follow each other. -/
theorem assemble_wound (h : (assemble program symbols options).outcome = .ok a)
    (hone : program.numbered.countP (·.IsOrg) ≤ 1) :
  ∃ n < 65536, Wound n a.addressedLines ∧ (∀ x ∈ a.addressedLines, 0 < x.2.size.toNat)
    ∧ (a.addresses.toList.map (·.2.size.toNat)).sum = (a.addressedLines.map (·.2.size.toNat)).sum
  := by
  obtain ⟨sections, hsections, hassign, haddresses, horder, -⟩ := exists_layout_of_assemble h
  have hone' : (sectionOrder sections).countP (·.IsOrg) ≤ 1 := by
    rw [(Program.sectionOrder_perm hsections).countP_eq]
    apply hone
  obtain ⟨c, d, ps, htiled, horg, hentries, hsum⟩ := assign_unbroken hsections hassign hone'
  have hlines : a.addressedLines = ps.filterMap Placement.entry? := by
    rw [Assembly.addressedLines, haddresses, horder]
    apply hentries
  use c.toNat, c.toNat_lt
  rw [hlines, haddresses, sum_size_entries]
  exact ⟨htiled.wound horg (Nat.mod_eq_of_lt c.toNat_lt), fun _ hx => size_pos_of_mem_entries hx,
    hsum⟩

/-- With at most one `.ORG`, and if nothing wraps around, the lines of a program are stacked. -/
theorem assemble_stacked (h : (assemble program symbols options).outcome = .ok a)
    (hone : program.numbered.countP (·.IsOrg) ≤ 1)
    (hfit : ∀ x ∈ a.addressedLines.head?,
      x.2.address.toNat + (a.addresses.toList.map (·.2.size.toNat)).sum ≤ 65536) :
  ∃ n, Stacked n a.addressedLines
    ∧ n + (a.addressedLines.map (·.2.size.toNat)).sum ≤ 65536
  := by
  obtain ⟨n, hn, hwound, hpos, hsum⟩ := assemble_wound h hone
  rw [hsum] at hfit
  cases hlines : a.addressedLines with
  | nil =>
      use 0
      simp [Stacked]
  | cons x xs =>
      rw [hlines] at hwound hpos hfit
      have hle := hfit x rfl
      rw [hwound.1, Nat.mod_eq_of_lt hn] at hle
      use n, hwound.stacked hpos rfl hle

/-- The base of a section is the address of its first line that has one. -/
theorem base_eq_of_assemble (h : (assemble program symbols options).outcome = .ok a)
    {s : Section} (hs : s ∈ a.sections) {x : LineId × Address}
    (hx : (a.addresses.entriesOf s.lines).head? = some x) :
  s.bounds.base = x.2.address
  := by
  obtain ⟨sections, hsections, hassign, haddresses, -, -⟩ := exists_layout_of_assemble h
  obtain ⟨i, ps, hlaid, hentered⟩ := exists_laidOut hsections hassign hs
  rw [haddresses] at hx
  apply hlaid.base_eq hentered hx

end

end Pep10
