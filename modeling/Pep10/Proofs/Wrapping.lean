import Pep10.Proofs.Formats

/-!
# Images of programs that wrap around

A layout that reaches the end of memory goes on at its beginning.  If that happens inside a stored
line, or if stored lines come to lie on each other, then there is no raw image.  If it happens
between two stored lines nothing is noticed.  The lines of a program with at most one `.ORG` and
with no more bytes than there are addresses are two stacks, of which the second lies below the
first, and the image has the lines after the end of memory in front of those before it.
-/

namespace Pep10

/-! ### Two stacks -/

/-- Entries that go around the end of memory once at most are two stacks, and the second one begins
at the remainder of the address where the first one ends. -/
theorem Wound.exists_stacks {n : Nat} {xs : List (LineId × Address)} (h : Wound n xs)
    (hpos : ∀ x ∈ xs, 0 < x.2.size.toNat)
    (hfit : n + (xs.map (·.2.size.toNat)).sum ≤ 131072) :
  ∃ before after, xs = before ++ after ∧ Stacked n before
    ∧ (after ≠ [] → ∃ m, m + 65536 = n + (before.map (·.2.size.toNat)).sum ∧ Stacked m after)
  := by
  induction xs generalizing n with
  | nil =>
      use [], [], rfl, trivial
      intro hne
      cases hne rfl
  | cons x xs ih =>
      by_cases hn : n < 65536
      · obtain ⟨haddress, hrest⟩ := h
        rw [List.forall_mem_cons] at hpos
        rw [List.map_cons, List.sum_cons] at hfit
        obtain ⟨before, after, rfl, hbefore, hafter⟩ := ih hrest hpos.2 (by omega)
        use x :: before, after, rfl, ⟨haddress.trans (Nat.mod_eq_of_lt hn), hbefore⟩
        intro hne
        obtain ⟨m, hm, hstacked⟩ := hafter hne
        rw [List.map_cons, List.sum_cons]
        use m, by omega, hstacked
      · use [], x :: xs, rfl, trivial
        intro _
        use n - 65536
        rw [List.map_nil, List.sum_nil]
        use by omega
        apply h.stacked hpos
        · omega
        · omega

section

variable {program : Program} {symbols : SymbolTable} {options : Options} {a : Assembly}

/-- With at most one `.ORG`, and with no more bytes than there are addresses, the stored lines are
one above the other when those after the end of memory are put in front. -/
theorem exists_rotation_ascending (h : (assemble program symbols options).outcome = .ok a)
    (hone : program.numbered.countP (·.IsOrg) ≤ 1)
    (htotal : (a.addresses.toList.map (·.2.size.toNat)).sum ≤ 65536) :
  ∃ before after, a.storedLines = before ++ after ∧ Ascending (after ++ before)
  := by
  obtain ⟨n, hn, hwound, hpos, hsum⟩ := assemble_wound h hone
  rw [hsum] at htotal
  obtain ⟨before, after, hlines, hbefore, hafter⟩ := hwound.exists_stacks hpos (by omega)
  have hsub := a.storedLines_sublist
  rw [hlines, List.sublist_append_iff] at hsub
  rw [hlines, List.map_append, List.sum_append] at htotal
  obtain ⟨before', after', hstored, hsub, hsub'⟩ := hsub
  use before', after', hstored
  by_cases hnil : after = []
  · rw [hnil, List.sublist_nil] at hsub'
    rw [hsub', List.nil_append]
    apply hbefore.ascending.sublist hsub
  · obtain ⟨m, hm, hstacked⟩ := hafter hnil
    apply List.pairwise_append.mpr
    use hstacked.ascending.sublist hsub', hbefore.ascending.sublist hsub
    intro y hy x hx
    have hy := (hstacked.bounds (hsub'.mem hy)).2
    have hx := (hbefore.bounds (hsub.mem hx)).1
    omega

end

/-! ### Layouts that pass the end of memory -/

namespace Assembly

/-- A stored line goes beyond the last address. -/
def Straddles (a : Assembly) : Prop :=
  ∃ line e, a.Stores line e ∧ 0x10000 < e.address.toNat + e.size.toNat

/-- A stored line lies below one that comes before it in the order of the sections. -/
def Descends (a : Assembly) : Prop :=
  ∃ x y, [x, y].Sublist a.storedLines ∧ y.2.address < x.2.address

/-- Two stored lines have an address in common. -/
def Collides (a : Assembly) : Prop :=
  ∃ line line' e e', line ≠ line' ∧ a.Stores line e ∧ a.Stores line' e' ∧ e.Overlaps e'

theorem Descends.not_ascending {a : Assembly} (h : a.Descends) :
  ¬ Ascending a.storedLines
  := by
  intro hascending
  obtain ⟨x, y, hsub, hlt⟩ := h
  have hle := List.pairwise_pair.mp (hascending.sublist hsub)
  rw [UInt16.lt_iff_toNat_lt] at hlt
  omega

end Assembly

/-- A layout that passes the end of memory among its stored bytes has no raw image exactly when a
stored line goes beyond the last address or overlaps with another one.  Otherwise, and if the
program has no more bytes than there are addresses, it has one, in which the last stored lines
stand in front of the first ones. -/
theorem rawImage_of_wraps {program : Program} {symbols : SymbolTable} {options : Options}
    {a : Assembly} (h : (assemble program symbols options).outcome = .ok a)
    (hone : program.numbered.countP (·.IsOrg) ≤ 1) (hwraps : a.Descends ∨ a.Straddles) :
  ((∃ e, a.rawImage (segments a.sections) = .error e) ↔ a.Straddles ∨ a.Collides)
  ∧ ((a.addresses.toList.map (·.2.size.toNat)).sum ≤ 65536 → ¬ a.Straddles →
    ∃ image start stop before after, a.rawImage (segments a.sections) = .ok image
      ∧ a.IsRawImage image start stop
      ∧ a.storedLines = before ++ after ∧ before ≠ [] ∧ after ≠ []
      ∧ Ascending (after ++ before))
  := by
  obtain ⟨codes, hemits⟩ := exists_emits h
  use hemits.exists_rawImage_error_iff
  intro htotal hstraddles
  have hfit : ∀ line e, a.Stores line e → e.address.toNat + e.size.toNat ≤ 0x10000 := by
    intro line e hline
    by_contra hlt
    apply hstraddles ⟨line, e, hline, Nat.lt_of_not_le hlt⟩
  have hdescends := (hwraps.resolve_right hstraddles).not_ascending
  obtain ⟨before, after, hstored, hascending⟩ := exists_rotation_ascending h hone htotal
  have hbefore : before ≠ [] := by
    rintro rfl
    rw [List.append_nil] at hascending
    apply hdescends
    rwa [hstored, List.nil_append]
  have hafter : after ≠ [] := by
    rintro rfl
    rw [List.nil_append] at hascending
    apply hdescends
    rwa [hstored, List.append_nil]
  have hsub : a.storedLines ⊆ after ++ before := by
    rw [hstored]
    apply List.perm_append_comm.subset
  obtain ⟨image, himage⟩ := hemits.exists_rawImage hsub hascending hfit
  have hne : a.storedLines ≠ [] := by
    rw [hstored]
    apply List.append_ne_nil_of_left_ne_nil hbefore
  obtain ⟨stop, hraw⟩ := hemits.isRawImage himage hne
  exact ⟨image, _, stop, before, after, himage, hraw, hstored, hbefore, hafter, hascending⟩

/-- A program that goes around the end of memory between its two bytes. -/
def Program.seam : Program :=
  [{ kind := .origin .org (.literal (.hexadecimal 0xFFFF)) },
    { kind := .data .byte (.literal (.decimal 1)) },
    { kind := .data .byte (.literal (.decimal 2)) }]

theorem assemble_seam :
  (assemble .seam { id := 0 } {}).outcome.map
    (fun a => (a.storedLines, a.addresses.toList, a.codeOf 1, a.codeOf 2))
    = .ok ([(1, ⟨0xFFFF, 1⟩), (2, ⟨0, 1⟩)], [(1, ⟨0xFFFF, 1⟩), (2, ⟨0, 1⟩)], [1], [2])
  := by
  cbv

section

variable {a : Assembly} (h : a.storedLines = [(1, ⟨0xFFFF, 1⟩), (2, ⟨0, 1⟩)])

include h

theorem stores_seam_iff {line : LineId} {e : Address} :
  a.Stores line e ↔ line = 1 ∧ e = ⟨0xFFFF, 1⟩ ∨ line = 2 ∧ e = ⟨0, 1⟩
  := by
  rw [← Assembly.mem_storedLines_iff, h]
  simp

theorem descends_seam :
  a.Descends
  := by
  use (1, ⟨0xFFFF, 1⟩), (2, ⟨0, 1⟩)
  rw [h]
  use List.Sublist.refl _
  decide

theorem not_straddles_seam :
  ¬ a.Straddles
  := by
  rintro ⟨line, e, hline, hlt⟩
  rcases (stores_seam_iff h).mp hline with ⟨-, rfl⟩ | ⟨-, rfl⟩
  · exact absurd hlt (by decide)
  · exact absurd hlt (by decide)

theorem not_collides_seam :
  ¬ a.Collides
  := by
  have hascending : Ascending [(2, ⟨0, 1⟩), (1, ⟨0xFFFF, 1⟩)] := by
    apply List.pairwise_pair.mpr
    decide
  rintro ⟨line, line', e, e', hne, hline, hline', hoverlaps⟩
  have hsub : a.storedLines ⊆ [(2, ⟨0, 1⟩), (1, ⟨0xFFFF, 1⟩)] := by
    rw [h]
    apply (List.Perm.swap _ _ _).subset
  have hpair : (line, e) ≠ (line', e') := fun heq => hne (congrArg Prod.fst heq)
  apply hascending.not_overlaps (hsub (Assembly.mem_storedLines_iff.mpr hline))
    (hsub (Assembly.mem_storedLines_iff.mpr hline')) hpair hoverlaps

end

/-- It is not so that all layouts that pass the end of memory among their stored bytes have no raw
image. -/
theorem not_forall_rawImage_error_of_wraps :
  ¬ ∀ (program : Program) (symbols : SymbolTable) (options : Options) (a : Assembly),
    (assemble program symbols options).outcome = .ok a →
    program.numbered.countP (·.IsOrg) ≤ 1 → a.Descends ∨ a.Straddles →
    ∃ e, a.rawImage (segments a.sections) = .error e
  := by
  intro hall
  obtain ⟨a, ha, heq⟩ := Except.map_eq_ok_iff.mp assemble_seam
  rw [Prod.mk.injEq] at heq
  obtain ⟨hstored, -⟩ := heq
  obtain ⟨codes, hemits⟩ := exists_emits ha
  have herror := hall _ _ _ a ha (by decide) (.inl (descends_seam hstored))
  rcases hemits.exists_rawImage_error_iff.mp herror with hstraddles | hcollides
  · apply not_straddles_seam hstored hstraddles
  · apply not_collides_seam hstored hcollides

theorem rawImage_of_wraps_seam :
  ∃ a image, (assemble .seam { id := 0 } {}).outcome = .ok a
    ∧ Program.seam.numbered.countP (·.IsOrg) ≤ 1 ∧ (a.Descends ∨ a.Straddles)
    ∧ (¬ ∃ e, a.rawImage (segments a.sections) = .error e)
    ∧ a.rawImage (segments a.sections) = .ok image
    ∧ image.length = 0x10000 ∧ image[0]? = some 2 ∧ image[0xFFFF]? = some 1
  := by
  obtain ⟨a, ha, heq⟩ := Except.map_eq_ok_iff.mp assemble_seam
  rw [Prod.mk.injEq, Prod.mk.injEq, Prod.mk.injEq] at heq
  obtain ⟨hstored, hlist, hone, htwo⟩ := heq
  have horg : Program.seam.numbered.countP (·.IsOrg) ≤ 1 := by decide
  have hwraps : a.Descends ∨ a.Straddles := .inl (descends_seam hstored)
  have htotal : (a.addresses.toList.map (·.2.size.toNat)).sum ≤ 65536 := by
    rw [hlist]
    decide
  obtain ⟨herror, hok⟩ := rawImage_of_wraps ha horg hwraps
  obtain ⟨image, start, stop, before, after, himage, hraw, -⟩ :=
    hok htotal (not_straddles_seam hstored)
  have hfirst : a.Stores 1 ⟨0xFFFF, 1⟩ := (stores_seam_iff hstored).mpr (.inl ⟨rfl, rfl⟩)
  have hsecond : a.Stores 2 ⟨0, 1⟩ := (stores_seam_iff hstored).mpr (.inr ⟨rfl, rfl⟩)
  have hstart : start = 0 := Nat.le_zero.mp (hraw.least.2 ⟨2, _, hsecond, rfl⟩)
  have hstop : stop = 0x10000 := by
    have hle : 0x10000 ≤ stop := hraw.greatest.2 ⟨1, _, hfirst, rfl⟩
    obtain ⟨line, e, hline, heq⟩ := hraw.greatest.1
    rcases (stores_seam_iff hstored).mp hline with ⟨-, rfl⟩ | ⟨-, rfl⟩
    · exact heq.symm
    · replace heq : 0 + 1 = stop := heq
      omega
  obtain ⟨byte, hbyte, hlast⟩ := hraw.code hfirst (show 0 < 1 by decide)
  obtain ⟨byte', hbyte', hhead⟩ := hraw.code hsecond (show 0 < 1 by decide)
  rw [hone] at hbyte
  rw [htwo] at hbyte'
  rw [hstart] at hlast hhead
  refine ⟨a, image, ha, horg, hwraps, ?_, himage, ?_, ?_, ?_⟩
  · rw [herror, not_or]
    use not_straddles_seam hstored, not_collides_seam hstored
  · rw [hraw.length_eq, hstart, hstop]
  · exact hhead.trans hbyte'.symm
  · exact hlast.trans hbyte.symm

end Pep10
