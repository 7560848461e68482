import Pep10.Proofs.StoredLines
import Pep10.Proofs.SymbolValues
import Mathlib.Data.Nat.ModEq

/-!
# Alignment

An `.ALIGN` is padded to the next multiple of its operand, counted from the address where it is
visited.  In a forward walk that is the address where its bytes begin, so the line after it is
aligned, also when the addresses wrap, because the operand divides their number.

In a backward walk an `.ALIGN` is visited at the last free address, and the line after it already
has its address.  The padding is that of an address one below the line, and the line is aligned only
when the padding happens to be a single byte.
-/

namespace Pep10

/-! ### Padding -/

theorem isLeast_sub_mod {n : Nat} (hn : 0 < n) (b : Nat) :
  IsLeast {k | n ∣ b + k} ((n - b % n) % n)
  := by
  have hrest : {k | n ∣ b + k} = {k | n ∣ b % n + k} := by
    ext k
    simp [Nat.dvd_iff_mod_eq_zero]
  have hlt := Nat.mod_lt b hn
  rw [hrest]
  generalize b % n = r at hlt
  obtain rfl | hpos := Nat.eq_zero_or_pos r
  · simp [IsLeast, lowerBounds]
  · rw [Nat.mod_eq_of_lt (by omega)]
    constructor
    · change n ∣ r + (n - r)
      rw [Nat.add_sub_cancel' hlt.le]
    · intro k hk
      have hle := Nat.le_of_dvd (by omega) hk
      omega

theorem toNat_padding {n : UInt16} (hn : 0 < n.toNat) (base : UInt16) :
  (padding n base).toNat = (n.toNat - base.toNat % n.toNat) % n.toNat
  := by
  rw [padding]
  split
  · next hle =>
    have hone : n.toNat = 1 := by
      have := UInt16.le_iff_toNat_le.mp hle
      rw [UInt16.toNat_one] at this
      omega
    simp [hone, Nat.mod_one]
  · have hle : base % n ≤ n := by
      rw [UInt16.le_iff_toNat_le, UInt16.toNat_mod]
      apply (Nat.mod_lt _ hn).le
    rw [UInt16.toNat_mod, UInt16.toNat_sub_of_le _ _ hle, UInt16.toNat_mod]

/-- The padding is the distance to the next multiple. -/
theorem isLeast_padding {n : UInt16} (hn : 0 < n.toNat) (base : UInt16) :
  IsLeast {k | n.toNat ∣ base.toNat + k} (padding n base).toNat
  := by
  rw [toNat_padding hn]
  apply isLeast_sub_mod hn

theorem padding_lt {n : UInt16} (hn : 0 < n.toNat) (base : UInt16) :
  (padding n base).toNat < n.toNat
  := by
  rw [toNat_padding hn]
  apply Nat.mod_lt _ hn

/-- One byte more makes a multiple if it is the only byte of the padding. -/
theorem dvd_succ_iff_padding {n : UInt16} (hn : 0 < n.toNat) (base : UInt16) :
  n.toNat ∣ base.toNat + 1 ↔ (padding n base).toNat = 1 % n.toNat
  := by
  have hdvd : n.toNat ∣ base.toNat + (padding n base).toNat := (isLeast_padding hn base).1
  have hlt := padding_lt hn base
  rw [← Nat.modEq_zero_iff_dvd] at hdvd ⊢
  constructor
  · intro h
    have heq := (hdvd.trans h.symm).add_left_cancel' base.toNat
    rw [Nat.ModEq, Nat.mod_eq_of_lt hlt] at heq
    apply heq
  · intro h
    have heq : 1 ≡ (padding n base).toNat [MOD n.toNat] := by
      rw [h, Nat.ModEq, Nat.mod_mod]
    apply (heq.add_left _).trans hdvd

/-! ### Lines after an alignment -/

/-- The alignments of a document divide the number of addresses. -/
theorem exists_alignment {d : Document} {id : TableId} {u : ProgramUnit}
    (hlower : d.lower id = .ok u) {l : NumberedLine} (hl : l ∈ u.program.numbered)
    {argument : Argument} (hkind : l.line.kind = .align argument) :
  ∃ n : UInt16, argument.count? = some n ∧ 0 < n.toNat ∧ n.toNat ∣ UInt16.size
  := by
  have hlowered : l.line.kind.Lowered :=
    Program.forall_mem_numbered_iff.mpr (forall_lowered (Document.lower_eq_ok hlower).2.2) l hl
  rw [hkind] at hlowered
  simp only [LineKind.Lowered, List.mem_cons, List.not_mem_nil, or_false] at hlowered
  obtain h | h | h | h := hlowered
  · exact ⟨1, h, by decide, by decide⟩
  · exact ⟨2, h, by decide, by decide⟩
  · exact ⟨4, h, by decide, by decide⟩
  · exact ⟨8, h, by decide, by decide⟩

theorem dvd_toNat_add_iff {n : Nat} (hn : n ∣ UInt16.size) (b k : UInt16) :
  n ∣ (b + k).toNat ↔ n ∣ b.toNat + k.toNat
  := by
  rw [UInt16.toNat_add]
  apply Nat.dvd_mod_iff hn

theorem Placement.Faithful.size_of_align {p : Placement} (h : p.Faithful) {argument : Argument}
    (hkind : p.line.line.kind = .align argument) {n : UInt16} (hn : argument.count? = some n) :
  p.size = padding n p.base
  := by
  rw [h.size_eq, Line.size, Line.size?, hkind]
  simp [hn]

/-- The placements of the lines of a program. -/
def placementsOf (program : Program) (symbols : SymbolTable) (options : Options) :
    List Placement :=
  match program.sections (symbols.bindImports options.linked) options.initial with
  | .error _ => []
  | .ok sections => (assign symbols.id sections options.base).placements

/-- An assembled program is laid out on both sides of an origin. -/
theorem exists_sides_of_assemble {program : Program} {symbols : SymbolTable} {options : Options}
    {a : Assembly} (h : (assemble program symbols options).outcome = .ok a) :
  ∃ c origin d below above,
    Sides options.base (sectionOrder a.sections) a.addresses c origin d below above
    ∧ (placementsOf program symbols options).Perm (below ++ above)
  := by
  obtain ⟨sections, hsections, hassign, haddresses, horder, -⟩ := exists_layout_of_assemble h
  obtain ⟨_, _, below, above, -, hfrontier, hsides⟩ := assign_sides hsections hassign
  rw [haddresses, horder, placementsOf, hsections]
  exact ⟨_, _, _, below, above, hsides, hfrontier.perm⟩

/-- The padding of an `.ALIGN` that is walked forward, with its placement. -/
structure PaddedForward (a : Assembly) (n : UInt16) (p : Placement) : Prop where
  /-- The bytes of the line, if there are any, begin where the line is visited. -/
  address_eq : ∀ e, a.addresses.get? p.line.id = some e → e.address = p.base
  /-- There are no more of them than it takes to reach a multiple. -/
  isLeast : IsLeast {k | n.toNat ∣ p.base.toNat + k} (a.addresses.sizeAt p.line)
  lt : a.addresses.sizeAt p.line < n.toNat
  /-- The next line with bytes is aligned. -/
  next : ∀ {before between m after e},
    sectionOrder a.sections = before ++ p.line :: (between ++ m :: after) →
    Idle a.addresses between → a.addresses.get? m.id = some e → n.toNat ∣ e.address.toNat
  /-- The bytes are zero. -/
  zeros : ∀ e, a.Stores p.line.id e →
    a.codeOf p.line.id = List.replicate (a.addresses.sizeAt p.line) 0

theorem Entered.sizeAt_eq {t : LineTable Address} {ps : List Placement} (h : Entered t ps)
    {p : Placement} (hp : p ∈ ps) :
  t.sizeAt p.line = p.size.toNat
  := by
  rw [LineTable.sizeAt, h.get?_eq p hp]
  split
  · next hsize => simp [hsize]
  · rfl

/-- The bytes of an `.ALIGN` in the object code are zero. -/
theorem codeOf_align {program : Program} {symbols : SymbolTable} {options : Options}
    {a : Assembly} (h : (assemble program symbols options).outcome = .ok a) {l : NumberedLine}
    (hl : l ∈ program.numbered) {argument : Argument} (hkind : l.line.kind = .align argument)
    {e : Address} (hstores : a.Stores l.id e) :
  a.codeOf l.id = List.replicate e.size.toNat 0
  := by
  obtain ⟨codes, hemits⟩ := exists_emits h
  have he := hstores.1
  obtain ⟨i, s, hs, hzeroed, hl⟩ :=
    hemits.exists_of_stores ((mem_sectionOrder_iff h).mpr hl) hstores
  obtain ⟨_, _, _, _, _, _, hencodes⟩ := hemits.exists_span hs hzeroed hl he
  rw [hkind] at hencodes
  apply hencodes

/-- The padding of an `.ALIGN` of a document, wherever it is walked. -/
theorem exists_padding_of_align {d : Document} {id : TableId} {u : ProgramUnit}
    {options : Options} {a : Assembly} (hlower : d.lower id = .ok u)
    (h : (assemble u.program u.symbols options).outcome = .ok a) {c origin top : UInt16}
    {below above : List Placement}
    (hsides : Sides options.base (sectionOrder a.sections) a.addresses c origin top below above)
    {l : NumberedLine} (hl : l ∈ sectionOrder a.sections) {argument : Argument}
    (hkind : l.line.kind = .align argument) :
  ∃ p ∈ below ++ above, p.line = l ∧ ∃ n, argument.count? = some n ∧ 0 < n.toNat
    ∧ n.toNat ∣ UInt16.size ∧ p.size = padding n p.base
    ∧ a.addresses.sizeAt l = (padding n p.base).toNat
  := by
  obtain ⟨n, hn, hpos, hdvd⟩ := exists_alignment hlower ((mem_sectionOrder_iff h).mp hl) hkind
  rw [← hsides.lines_eq] at hl
  obtain ⟨p, hp, rfl⟩ := List.mem_map.mp hl
  have hsize := (hsides.entered.faithful p hp).size_of_align hkind hn
  refine ⟨p, hp, rfl, n, hn, hpos, hdvd, hsize, ?_⟩
  rw [hsides.entered.sizeAt_eq hp, hsize]

/-- An `.ALIGN` that is walked forward has as many zero bytes as it takes to reach a multiple of
its operand, and the next line with bytes begins there. -/
theorem paddedForward_of_align {d : Document} {id : TableId} {u : ProgramUnit} {options : Options}
    {a : Assembly} (hlower : d.lower id = .ok u)
    (h : (assemble u.program u.symbols options).outcome = .ok a) {l : NumberedLine}
    (hl : l ∈ walkedForward (sectionOrder a.sections)) {argument : Argument}
    (hkind : l.line.kind = .align argument) :
  ∃ n p, argument.count? = some n ∧ p ∈ placementsOf u.program u.symbols options ∧ p.line = l
    ∧ VisitedForward options.base (sectionOrder a.sections) a.addresses p
    ∧ PaddedForward a n p
  := by
  obtain ⟨c, origin, d, below, above, hsides, hperm⟩ := exists_sides_of_assemble h
  have hmem : l ∈ sectionOrder a.sections := by
    rw [hsides.forward_eq] at hl
    rw [← hsides.lines_eq, List.map_append]
    apply List.mem_append_right _ hl
  obtain ⟨p, hp, rfl, n, hn, hpos, hdvd, hsize, hsizeAt⟩ :=
    exists_padding_of_align hlower h hsides hmem hkind
  have habove := hsides.mem_above hp hl
  have horg : ¬ p.line.IsOrg := by simp [NumberedLine.IsOrg, NumberedLine.origin?, hkind]
  refine ⟨n, p, hn, hperm.mem_iff.mpr hp, rfl, hsides.visitedForward habove, ?_⟩
  constructor
  · intro e he
    rw [hsides.entered.get?_eq p hp] at he
    split at he
    · cases he
    · next hne =>
      cases he
      rw [hsides.above_address p habove hne]
  · rw [hsizeAt]
    apply isLeast_padding hpos
  · rw [hsizeAt]
    apply padding_lt hpos
  · intro before between m after e horder hbetween he
    rw [hsides.address_next habove horder hbetween he, if_neg horg, hsize, dvd_toNat_add_iff hdvd]
    apply (isLeast_padding hpos p.base).1
  · intro e hstores
    rw [codeOf_align h ((mem_sectionOrder_iff h).mp hmem) hkind hstores, LineTable.sizeAt,
      hstores.1]
    rfl

/-- A document with an `.ALIGN` across the end of the addresses. -/
def Document.wrapped : Document where
  lines := [
    { operation := .org (.hexadecimal 0xFFFD) },
    { operation := .byte (.decimal 1) },
    { operation := .align (.decimal 4) },
    { operation := .word (.decimal 2) }]

/-- The program of the document `wrapped`. -/
def ProgramUnit.wrapped : ProgramUnit where
  program := [
    { kind := .origin .org (.literal (.hexadecimal 0xFFFD)) },
    { kind := .data .byte (.literal (.decimal 1)) },
    { kind := .align (.literal (.decimal 4)) },
    { kind := .data .word (.literal (.decimal 2)) }]
  symbols := { id := 0 }

theorem layout_wrapped :
  (assemble ProgramUnit.wrapped.program ProgramUnit.wrapped.symbols {}).outcome.map
    (fun a => (sectionOrder a.sections, a.addresses.get? 2, a.addresses.get? 3))
    = .ok (ProgramUnit.wrapped.program.numbered, some ⟨0xFFFE, 2⟩, some ⟨0, 2⟩)
  := by
  cbv

theorem paddedForward_of_align_wrapped :
  Document.wrapped.lower 0 = .ok .wrapped
    ∧ ∃ a p, (assemble ProgramUnit.wrapped.program ProgramUnit.wrapped.symbols {}).outcome = .ok a
      ∧ a.addresses.get? 2 = some ⟨0xFFFE, 2⟩ ∧ a.addresses.get? 3 = some ⟨0, 2⟩
      ∧ p.line.id = 2 ∧ PaddedForward a 4 p
  := by
  have hlower : Document.wrapped.lower 0 = .ok .wrapped := rfl
  obtain ⟨a, ha, heq⟩ := Except.map_eq_ok_iff.mp layout_wrapped
  rw [Prod.mk.injEq, Prod.mk.injEq] at heq
  obtain ⟨horder, halign, hword⟩ := heq
  have hforward : (⟨2, { kind := .align (.literal (.decimal 4)) }⟩ : NumberedLine)
      ∈ walkedForward (sectionOrder a.sections) := by
    rw [horder]
    decide
  obtain ⟨n, p, hn, -, hp, -, hpadded⟩ := paddedForward_of_align hlower ha hforward rfl
  cases hn
  exact ⟨hlower, a, p, ha, halign, hword, by rw [hp], hpadded⟩

/-! ### Alignment in a backward walk -/

/-- The line after an `.ALIGN` that is walked backward is aligned only if the padding is a single
byte, because the padding is counted from the address below that line. -/
theorem dvd_address_iff_of_align_backward {d : Document} {id : TableId} {u : ProgramUnit}
    {options : Options} {a : Assembly} (hlower : d.lower id = .ok u)
    (h : (assemble u.program u.symbols options).outcome = .ok a) {s : Section}
    (hs : s ∈ a.sections) {before between after : List NumberedLine} {l m : NumberedLine}
    (hlines : s.lines = before ++ l :: (between ++ m :: after))
    (hbackward : l ∉ walkedForward (sectionOrder a.sections)) {argument : Argument}
    (hkind : l.line.kind = .align argument) {n : UInt16} (hn : argument.count? = some n)
    (hbetween : Idle a.addresses between) {e : Address} (hm : a.addresses.get? m.id = some e) :
  IsLeast {k | n.toNat ∣ (e.address - 1).toNat + k} (a.addresses.sizeAt l)
    ∧ (n.toNat ∣ e.address.toNat ↔ a.addresses.sizeAt l = 1 % n.toNat)
  := by
  obtain ⟨front, back, horder⟩ := exists_sectionOrder_eq hs hlines
  obtain ⟨c, origin, d, below, above, hsides, -⟩ := exists_sides_of_assemble h
  have hmem : l ∈ sectionOrder a.sections := by simp [horder]
  obtain ⟨p, hp, rfl, n', hn', hpos, hdvd, -, hsizeAt⟩ :=
    exists_padding_of_align hlower h hsides hmem hkind
  obtain rfl := Option.some_inj.mp (hn.symm.trans hn')
  have hbase : p.base + 1 = e.address :=
    (hsides.visitedBackward (hsides.mem_below hp hbackward)).before horder hbetween (.bytes hm)
  rw [hsizeAt, ← hbase, UInt16.add_sub_cancel, dvd_toNat_add_iff hdvd, UInt16.toNat_one]
  exact ⟨isLeast_padding hpos p.base, dvd_succ_iff_padding hpos p.base⟩

/-- A document with two `.ALIGN`s before an `.ORG`. -/
def Document.padded : Document where
  lines := [
    { operation := .align (.decimal 2) },
    { operation := .byte (.decimal 1) },
    { operation := .align (.decimal 4) },
    { operation := .word (.decimal 7) },
    { operation := .org (.hexadecimal 0x0100) }]

/-- The program of the document `padded`. -/
def ProgramUnit.padded : ProgramUnit where
  program := [
    { kind := .align (.literal (.decimal 2)) },
    { kind := .data .byte (.literal (.decimal 1)) },
    { kind := .align (.literal (.decimal 4)) },
    { kind := .data .word (.literal (.decimal 7)) },
    { kind := .origin .org (.literal (.hexadecimal 0x0100)) }]
  symbols := { id := 0 }

theorem layout_padded :
  (assemble ProgramUnit.padded.program ProgramUnit.padded.symbols {}).outcome.map
    (fun a => (a.sections.map (·.lines), a.addresses.get? 0, a.addresses.get? 1,
      a.addresses.get? 3))
    = .ok ([ProgramUnit.padded.program.numbered], some ⟨0xF9, 1⟩, some ⟨0xFA, 1⟩, some ⟨0xFE, 2⟩)
  := by
  cbv

/-- In the document `padded` both `.ALIGN`s are walked backward. -/
theorem exists_assemble_padded :
  ∃ a s, (assemble ProgramUnit.padded.program ProgramUnit.padded.symbols {}).outcome = .ok a
    ∧ s ∈ a.sections ∧ s.lines = ProgramUnit.padded.program.numbered
    ∧ sectionOrder a.sections = ProgramUnit.padded.program.numbered
    ∧ a.addresses.get? 0 = some ⟨0xF9, 1⟩ ∧ a.addresses.get? 1 = some ⟨0xFA, 1⟩
    ∧ a.addresses.get? 3 = some ⟨0xFE, 2⟩
  := by
  obtain ⟨a, ha, heq⟩ := Except.map_eq_ok_iff.mp layout_padded
  simp only [Prod.mk.injEq] at heq
  obtain ⟨hsections, halign, hbyte, hword⟩ := heq
  obtain ⟨s, rest, hs, hlines, hrest⟩ := List.map_eq_cons_iff.mp hsections
  cases List.map_eq_nil_iff.mp hrest
  refine ⟨a, s, ha, by simp [hs], hlines, ?_, halign, hbyte, hword⟩
  rw [hs, sectionOrder, List.flatMap_singleton, hlines]

/-- The first `.ALIGN` is padded by a single byte. -/
theorem dvd_address_iff_of_align_backward_padded :
  Document.padded.lower 0 = .ok .padded
    ∧ ∃ a, (assemble ProgramUnit.padded.program ProgramUnit.padded.symbols {}).outcome = .ok a
      ∧ a.addresses.get? 0 = some ⟨0xF9, 1⟩ ∧ a.addresses.get? 1 = some ⟨0xFA, 1⟩ ∧ 2 ∣ 0xFA
  := by
  have hlower : Document.padded.lower 0 = .ok .padded := rfl
  obtain ⟨a, s, ha, hs, hlines, horder, halign, hbyte, -⟩ := exists_assemble_padded
  have hbackward : (⟨0, { kind := .align (.literal (.decimal 2)) }⟩ : NumberedLine)
      ∉ walkedForward (sectionOrder a.sections) := by
    rw [horder]
    decide
  have hsize : a.addresses.sizeAt ⟨0, { kind := .align (.literal (.decimal 2)) }⟩ = 1 := by
    rw [LineTable.sizeAt, halign]
    rfl
  have hlines : s.lines = [] ++ ⟨0, { kind := .align (.literal (.decimal 2)) }⟩
      :: ([] ++ ⟨1, { kind := .data .byte (.literal (.decimal 1)) }⟩
        :: ProgramUnit.padded.program.numbered.drop 2) := hlines
  have hiff := (dvd_address_iff_of_align_backward hlower ha hs hlines hbackward rfl rfl (.nil _)
    hbyte).2
  exact ⟨hlower, a, ha, halign, hbyte, hiff.mpr hsize⟩

/-- The line after an `.ALIGN` that is walked backward need not be aligned. -/
theorem not_forall_dvd_address_of_align_backward :
  ¬ ∀ (d : Document) (id : TableId) (u : ProgramUnit) (options : Options) (a : Assembly)
    (s : Section) (before between after : List NumberedLine) (l m : NumberedLine)
    (argument : Argument) (n : UInt16) (e : Address),
    d.lower id = .ok u → (assemble u.program u.symbols options).outcome = .ok a →
    s ∈ a.sections → s.lines = before ++ l :: (between ++ m :: after) →
    l ∉ walkedForward (sectionOrder a.sections) → l.line.kind = .align argument →
    argument.count? = some n → Idle a.addresses between → a.addresses.get? m.id = some e →
    n.toNat ∣ e.address.toNat
  := by
  intro h
  have hlower : Document.padded.lower 0 = .ok .padded := rfl
  obtain ⟨a, s, ha, hs, hlines, horder, -, -, hword⟩ := exists_assemble_padded
  have hbackward : (⟨2, { kind := .align (.literal (.decimal 4)) }⟩ : NumberedLine)
      ∉ walkedForward (sectionOrder a.sections) := by
    rw [horder]
    decide
  have hdvd := h .padded 0 .padded {} a s (ProgramUnit.padded.program.numbered.take 2) []
    (ProgramUnit.padded.program.numbered.drop 4) _ _ _ 4 ⟨0xFE, 2⟩ hlower ha hs hlines hbackward
    rfl rfl (.nil _) hword
  revert hdvd
  decide

end Pep10
