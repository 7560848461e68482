import Pep10.Proofs.Layout.Bounds
import Pep10.Proofs.ObjectCode
import Mathlib.Data.List.Find

/-!
# What the bounds of a section say

The bounds of a section in an assembled program, compared with the addresses of its lines.  The
number of bytes and the base can be read off the address table, however many `.ORG`s there are.
The low and the high bound cannot in general, but with a single `.ORG` their distance is the number
of bytes, and one more for a section that has bytes on both sides of the `.ORG`.
-/

namespace Pep10

/-- Some of the lines have addresses. -/
def Addressed (t : LineTable Address) (lines : List NumberedLine) : Prop :=
  ∃ l ∈ lines, (t.get? l.id).isSome

/-- The first line of a section that has an address. -/
def Section.firstAddressed? (s : Section) (t : LineTable Address) : Option NumberedLine :=
  s.lines.find? fun l => (t.get? l.id).isSome

/-- There are bytes both before and after an `.ORG` of the section. -/
def Section.Straddles (s : Section) (t : LineTable Address) : Prop :=
  ∃ before l after, s.lines = before ++ l :: after ∧ l.IsOrg
    ∧ Addressed t before ∧ Addressed t after

/-- What the bounds of a section of an assembled program have to do with the addresses of its
lines. -/
structure BoundsLaw (program : Program) (a : Assembly) (s : Section) : Prop where
  /-- The lines of a section stand in the order of the program. -/
  lines_sublist : s.lines.Sublist program.numbered
  /-- The number of bytes is that of the lines with addresses. -/
  byteCount_eq : s.bounds.byteCount = ((a.addresses.entriesOf s.lines).map (·.2.size.toNat)).sum
  /-- A section with bytes begins at its first line with an address. -/
  base_eq : 0 < s.bounds.byteCount → ∃ l e, s.firstAddressed? a.addresses = some l
    ∧ a.addresses.get? l.id = some e ∧ s.bounds.base = e.address
  /-- Without bytes the bounds are the base. -/
  empty : s.bounds.byteCount = 0 → s.bounds.low = s.bounds.base ∧ s.bounds.high = s.bounds.base
  /-- A section that begins backward has its low bound below the base. -/
  base_backward : ∀ l, s.firstAddressed? a.addresses = some l →
    l ∉ walkedForward (sectionOrder a.sections) → s.bounds.base = s.bounds.low + 1
  /-- Any other section has its low bound at the base. -/
  base_forward : (∀ l, s.firstAddressed? a.addresses = some l →
    l ∈ walkedForward (sectionOrder a.sections)) → s.bounds.base = s.bounds.low
  /-- With at most one `.ORG`, the distance between the bounds is the number of bytes. -/
  extent_eq : program.numbered.countP (·.IsOrg) ≤ 1 → ¬ s.Straddles a.addresses →
    s.bounds.extent = UInt16.ofNat s.bounds.byteCount
  /-- On both sides of the `.ORG` it is one more. -/
  extent_straddles : program.numbered.countP (·.IsOrg) ≤ 1 → s.Straddles a.addresses →
    s.bounds.extent = UInt16.ofNat (s.bounds.byteCount + 1)

/-! ### Lines with addresses -/

namespace Entered

variable {t : LineTable Address} {ps : List Placement}

theorem isSome_iff (h : Entered t ps) {p : Placement} (hp : p ∈ ps) :
  (t.get? p.line.id).isSome ↔ p.size ≠ 0
  := by
  rw [h.get?_eq p hp]
  split
  · next hsize => simp [hsize]
  · next hsize => simp [hsize]

theorem find?_isSome_eq (h : Entered t ps) :
  (ps.map (·.line)).find? (fun l => (t.get? l.id).isSome)
    = (ps.find? (·.size ≠ 0)).map (·.line)
  := by
  rw [List.find?_map]
  congr 1
  apply List.find?_congr
  intro p hp
  rw [Function.comp_apply, Bool.eq_iff_iff, h.isSome_iff hp, decide_eq_true_iff]

theorem addressed_iff (h : Entered t ps) :
  Addressed t (ps.map (·.line)) ↔ totalSize ps ≠ 0
  := by
  rw [Ne, totalSize_eq_zero_iff, findSome?_entry?_eq, Option.map_eq_none_iff, List.find?_eq_none]
  push Not
  constructor
  · rintro ⟨l, hl, hsome⟩
    obtain ⟨p, hp, rfl⟩ := List.mem_map.mp hl
    use p, hp
    simpa using (h.isSome_iff hp).mp hsome
  · rintro ⟨p, hp, hsize⟩
    use p.line, List.mem_map_of_mem hp
    apply (h.isSome_iff hp).mpr
    simpa using hsize

end Entered

theorem LineTable.sum_entriesOf (t : LineTable Address) (lines : List NumberedLine) :
  ((t.entriesOf lines).map (·.2.size.toNat)).sum = (lines.map t.sizeAt).sum
  := by
  induction lines with
  | nil => rfl
  | cons l lines ih =>
      rw [List.map_cons, List.sum_cons, ← ih, entriesOf, List.filterMap_cons, sizeAt]
      cases t.get? l.id with
      | none => simp [entriesOf]
      | some e => simp [entriesOf]

/-! ### The only origin line -/

namespace Sides

variable {t : LineTable Address} {order : List NumberedLine} {base c origin d : UInt16}
  {below above : List Placement}

/-- A program with an `.ORG` is walked forward from an `.ORG` on. -/
theorem exists_above_eq_cons (h : Sides base order t c origin d below above) {l : NumberedLine}
    (hl : l ∈ order) (horg : l.IsOrg) :
  ∃ o rest, above.map (·.line) = o :: rest ∧ o.IsOrg
  := by
  obtain ⟨o, hfind⟩ : ∃ o, order.find? (·.IsOrg) = some o := by
    rw [← Option.isSome_iff_exists, List.find?_isSome]
    use l, hl
    simpa using horg
  have ho : o.IsOrg := by simpa using List.find?_some hfind
  obtain ⟨argument, hargument⟩ := Option.isSome_iff_exists.mp ho
  obtain ⟨⟨rest, habove⟩, -⟩ := h.of_org hfind hargument
  use o, rest

/-- If there is one `.ORG` at most, only the first line that is walked forward can be it. -/
theorem tail_not_org (h : Sides base order t c origin d below above)
    (hcount : order.countP (·.IsOrg) ≤ 1) :
  ∀ l ∈ (above.map (·.line)).tail, ¬ l.IsOrg
  := by
  intro l hl horg
  have hmem : l ∈ order := by
    rw [← h.lines_eq, List.map_append]
    apply List.mem_append_right _ (List.mem_of_mem_tail hl)
  obtain ⟨o, rest, habove, ho⟩ := h.exists_above_eq_cons hmem horg
  rw [habove, List.tail_cons] at hl
  rw [← h.lines_eq, List.map_append, habove, List.countP_append,
    List.countP_cons_of_pos (by simpa using ho)] at hcount
  have hpos : 0 < rest.countP (·.IsOrg) := List.countP_pos_iff.mpr ⟨l, hl, by simpa using horg⟩
  omega

/-- An `.ORG` that is the first line walked forward leads to the origin. -/
theorem originValue_head (h : Sides base order t c origin d below above) {l : NumberedLine}
    {rest : List NumberedLine} (habove : above.map (·.line) = l :: rest) {argument : Argument}
    (hl : l.origin? .org = some argument) :
  originValue l.id argument = .ok origin
  := by
  apply (h.of_org _ hl).2
  rw [← h.lines_eq, List.map_append, habove]
  apply find?_isOrg_append_cons h.below_org (NumberedLine.isOrg_of_eq_some hl)

/-- Only an `.ORG` has lines on both sides of it. -/
theorem head_isOrg (h : Sides base order t c origin d below above) (hbelow : below ≠ [])
    {l : NumberedLine} {rest : List NumberedLine} (habove : above.map (·.line) = l :: rest) :
  l.IsOrg
  := by
  by_cases hnone : ∀ l ∈ order, ¬ l.IsOrg
  · have hmem : l ∈ above.map (·.line) := by simp [habove]
    obtain ⟨q, hq, -⟩ := List.mem_map.mp hmem
    obtain ⟨rfl, -⟩ := h.of_base hnone (h.burn_eq_none hnone hq)
    exact absurd rfl hbelow
  · push Not at hnone
    obtain ⟨k, hk, horg⟩ := hnone
    obtain ⟨o, rest', habove', ho⟩ := h.exists_above_eq_cons hk horg
    rw [habove] at habove'
    cases habove'
    apply ho

end Sides

/-! ### Sections on both sides of an origin -/

theorem tail_subset_of_isInfix {α : Type} {xs ys : List α} (h : xs <:+: ys) :
  xs.tail ⊆ ys.tail
  := by
  obtain ⟨before, after, rfl⟩ := h
  cases before with
  | nil =>
      cases xs with
      | nil => simp
      | cons x xs => simp
  | cons y before =>
      intro x hx
      simp [List.mem_of_mem_tail hx]

namespace Section.Spread

variable {s : Section} {order : List NumberedLine} {t : LineTable Address}
  {base c origin d : UInt16} {below above bs fs : List Placement}

theorem tail_not_org (h : s.Spread (below.map (·.line)) (above.map (·.line)) origin bs fs)
    (hsides : Sides base order t c origin d below above) (hcount : order.countP (·.IsOrg) ≤ 1) :
  ∀ p ∈ fs.tail, ¬ p.line.IsOrg
  := by
  rw [← List.forall_mem_map (f := fun p : Placement => p.line) (P := fun l => ¬ l.IsOrg),
    List.map_tail]
  intro l hl
  apply hsides.tail_not_org hcount l (tail_subset_of_isInfix h.above_infix hl)

/-- The section with bytes on both sides of the origin has an `.ORG` there. -/
theorem exists_eq_cons (h : s.Spread (below.map (·.line)) (above.map (·.line)) origin bs fs)
    (hsides : Sides base order t c origin d below above) (hbs : bs ≠ []) (hfs : fs ≠ []) :
  ∃ p rest, fs = p :: rest ∧ p.line.IsOrg ∧ ∃ ls, above.map (·.line) = p.line :: ls
  := by
  obtain ⟨p, rest, rfl⟩ := List.exists_cons_of_ne_nil hfs
  obtain ⟨ls, hls⟩ := h.above_prefix hbs
  rw [List.map_cons, List.cons_append] at hls
  refine ⟨p, rest, rfl, ?_, _, hls.symm⟩
  apply hsides.head_isOrg _ hls.symm
  rintro rfl
  apply hbs
  apply List.map_eq_nil_iff.mp (List.subset_nil.mp h.below_subset)

theorem straddles_iff (h : s.Spread (below.map (·.line)) (above.map (·.line)) origin bs fs)
    (hsides : Sides base order t c origin d below above) (ht : Entered t (bs ++ fs))
    (hcount : order.countP (·.IsOrg) ≤ 1) :
  s.Straddles t ↔ totalSize bs ≠ 0 ∧ totalSize fs ≠ 0
  := by
  have htb := ht.subset (List.subset_append_left bs fs)
  have htf := ht.subset (List.subset_append_right bs fs)
  rw [Straddles, ← h.lines_eq, List.map_append, ← htb.addressed_iff, ← htf.addressed_iff]
  constructor
  · rintro ⟨before, l, after, heq, horg, hbefore, hafter⟩
    obtain ⟨between, rfl, hfs⟩ | ⟨between, hbs, -⟩ := append_eq_append_cons heq
    · cases between with
      | nil =>
          rw [List.append_nil] at hbefore
          use hbefore
          obtain ⟨k, hk, hsome⟩ := hafter
          use k, by simp [hfs, hk]
      | cons k between =>
          have hl : l ∈ fs.tail.map (·.line) := by simp [List.map_tail, hfs]
          obtain ⟨p, hp, rfl⟩ := List.mem_map.mp hl
          exact absurd horg (h.tail_not_org hsides hcount p hp)
    · have hl : l ∈ bs.map (·.line) := by simp [hbs]
      exact absurd horg (hsides.below_org l (h.below_subset hl))
  · rintro ⟨hbefore, hafter⟩
    have hbs : bs ≠ [] := by
      rintro rfl
      simp [Addressed] at hbefore
    have hfs : fs ≠ [] := by
      rintro rfl
      simp [Addressed] at hafter
    obtain ⟨p, rest, rfl, horg, -⟩ := h.exists_eq_cons hsides hbs hfs
    refine ⟨bs.map (·.line), p.line, rest.map (·.line), by simp, horg, hbefore, ?_⟩
    -- the `.ORG` itself has no bytes
    obtain ⟨k, hk, hsome⟩ := hafter
    rw [List.map_cons] at hk
    obtain rfl | hk := List.mem_cons.mp hk
    · have hp : p ∈ p :: rest := List.mem_cons_self
      exact absurd horg ((htf.faithful p hp).not_org ((htf.isSome_iff hp).mp hsome))
    · use k, hk

theorem extent_eq (h : s.Spread (below.map (·.line)) (above.map (·.line)) origin bs fs)
    (hsides : Sides base order t c origin d below above) (hcount : order.countP (·.IsOrg) ≤ 1)
    (hzero : ¬ (totalSize bs ≠ 0 ∧ totalSize fs ≠ 0)) :
  s.bounds.extent = UInt16.ofNat s.bounds.byteCount
  := by
  rw [h.byteCount_eq]
  by_cases hbs : totalSize bs = 0
  · rw [h.extent_forward hbs (h.tail_not_org hsides hcount), hbs, Nat.zero_add]
  · have hfs : totalSize fs = 0 := by
      by_contra hfs
      apply hzero ⟨hbs, hfs⟩
    rw [h.extent_backward hfs, hfs, Nat.add_zero]

theorem extent_eq_succ (h : s.Spread (below.map (·.line)) (above.map (·.line)) origin bs fs)
    (hsides : Sides base order t c origin d below above) (ht : Entered t (bs ++ fs))
    (hcount : order.countP (·.IsOrg) ≤ 1) (hbs : totalSize bs ≠ 0) (hfs : totalSize fs ≠ 0) :
  s.bounds.extent = UInt16.ofNat (s.bounds.byteCount + 1)
  := by
  rw [h.byteCount_eq]
  apply h.extent_both hbs hfs (h.tail_not_org hsides hcount)
  intro p hp horg
  obtain ⟨q, rest, rfl, -, ls, habove⟩ := h.exists_eq_cons hsides
    (by rintro rfl; exact hbs rfl) (by rintro rfl; exact hfs rfl)
  cases hp
  obtain ⟨argument, hargument⟩ := Option.isSome_iff_exists.mp horg
  have hvalue := hsides.originValue_head habove hargument
  rw [(ht.faithful p (by simp)).origin_eq hargument] at hvalue
  apply Except.ok.inj hvalue

/-- A section with bytes has a first line with an address. -/
theorem exists_first (h : s.Spread (below.map (·.line)) (above.map (·.line)) origin bs fs)
    (ht : Entered t (bs ++ fs)) (hpos : 0 < s.bounds.byteCount) :
  ∃ p, (bs ++ fs).find? (·.size ≠ 0) = some p ∧ s.firstAddressed? t = some p.line
    ∧ t.get? p.line.id = some ⟨p.address, p.size⟩
  := by
  rw [h.byteCount_eq, ← totalSize_append, Nat.pos_iff_ne_zero, Ne, totalSize_eq_zero_iff,
    findSome?_entry?_eq, Option.map_eq_none_iff] at hpos
  obtain ⟨p, hp⟩ := Option.ne_none_iff_exists'.mp hpos
  use p, hp
  constructor
  · rw [firstAddressed?, ← h.lines_eq, ht.find?_isSome_eq, hp, Option.map_some]
  · rw [ht.get?_eq p (List.mem_of_find?_eq_some hp), if_neg]
    simpa using List.find?_some hp

/-- A section begins among the lines that are walked backward if it has bytes there. -/
theorem mem_above_iff (h : s.Spread (below.map (·.line)) (above.map (·.line)) origin bs fs)
    (hsides : Sides base order t c origin d below above) (ht : Entered t (bs ++ fs))
    {l : NumberedLine} (hl : s.firstAddressed? t = some l) :
  l ∈ above.map (·.line) ↔ totalSize bs = 0
  := by
  rw [firstAddressed?, ← h.lines_eq, ht.find?_isSome_eq, List.find?_append] at hl
  obtain ⟨p, hp, rfl⟩ := Option.map_eq_some_iff.mp hl
  rw [totalSize_eq_zero_iff, findSome?_entry?_eq, Option.map_eq_none_iff]
  cases hfind : bs.find? (·.size ≠ 0) with
  | none =>
      rw [hfind, Option.none_or] at hp
      simp only [iff_true]
      apply h.above_infix.subset
      apply List.mem_map_of_mem (List.mem_of_find?_eq_some hp)
  | some q =>
      rw [hfind, Option.some_or] at hp
      cases hp
      simp only [reduceCtorEq, iff_false]
      have hbelow := h.below_subset (List.mem_map_of_mem (List.mem_of_find?_eq_some hfind))
      have hnodup := hsides.nodup
      rw [← hsides.lines_eq, List.map_append] at hnodup
      apply fun habove => List.disjoint_of_nodup_append hnodup hbelow habove

end Section.Spread

/-- The bounds of every section of an assembled program agree with the addresses of its lines. -/
theorem boundsLaw_of_assemble {program : Program} {symbols : SymbolTable} {options : Options}
    {a : Assembly} (h : (assemble program symbols options).outcome = .ok a) {s : Section}
    (hs : s ∈ a.sections) :
  BoundsLaw program a s
  := by
  obtain ⟨sections, hsections, hassign, haddresses, horder, -⟩ := exists_layout_of_assemble h
  replace haddresses : a.addresses
      = (assign (symbols.bindImports options.linked).id sections options.base).addresses :=
    haddresses
  have hcount : program.numbered.countP (·.IsOrg) = (sectionOrder sections).countP (·.IsOrg) :=
    (Program.sectionOrder_perm hsections).symm.countP_eq _
  obtain ⟨anchor, c, d, below, above, hsides, hbelow, habove, i, ps, hlines, hlaid, hentered⟩ :=
    exists_laidOutFrom hsections hassign hs
  have hbase := fun x => Section.LaidOut.base_eq_of_entry (x := x) ⟨anchor, hlaid⟩
  obtain ⟨bs, fs, rfl, hspread⟩ := hlaid.exists_spread hlines
  rw [← hbelow, ← habove] at hspread
  rw [← haddresses] at hsides hentered
  have hforward := fun l hl => hspread.mem_above_iff hsides hentered (l := l) hl
  rw [← hsides.forward_eq, ← horder] at hforward
  refine {
    lines_sublist := ?_
    byteCount_eq := ?_
    base_eq := ?_
    empty := ?_
    base_backward := ?_
    base_forward := ?_
    extent_eq := ?_
    extent_straddles := ?_ }
  · obtain ⟨t, ht, hunplaced⟩ := List.mem_map.mp
      ((assign_laid hsections hassign).1 ▸ List.mem_map_of_mem (f := Section.unplaced) hs)
    change s.unplaced.lines.Sublist _
    rw [← hunplaced]
    apply Program.lines_sublist_numbered hsections ht
  · rw [a.addresses.sum_entriesOf, haddresses]
    apply ((assign_laid hsections hassign).2 s hs).2
  · intro hpos
    obtain ⟨p, hp, hfirst, hget⟩ := hspread.exists_first hentered hpos
    refine ⟨p.line, _, hfirst, hget, ?_⟩
    apply hbase (p.line.id, ⟨p.address, p.size⟩)
    rw [findSome?_entry?_eq, hp, Option.map_some]
  · intro hzero
    obtain ⟨hbs, hfs⟩ := Nat.add_eq_zero_iff.mp (hspread.byteCount_eq.symm.trans hzero)
    have hextent := hspread.extent_backward hfs
    rw [hbs, Bounds.extent] at hextent
    have hlow := hspread.base_forward hbs
    grind
  · intro l hl hnot
    rw [hforward l hl] at hnot
    apply hspread.base_backward hnot
  · intro hall
    apply hspread.base_forward
    by_contra hne
    have hpos : 0 < s.bounds.byteCount := by
      rw [hspread.byteCount_eq]
      omega
    obtain ⟨p, -, hfirst, -⟩ := hspread.exists_first hentered hpos
    apply hne ((hforward p.line hfirst).mp (hall p.line hfirst))
  · intro hone hnot
    rw [hcount] at hone
    rw [hspread.straddles_iff hsides hentered hone] at hnot
    apply hspread.extent_eq hsides hone hnot
  · intro hone hstraddles
    rw [hcount] at hone
    obtain ⟨hbs, hfs⟩ := (hspread.straddles_iff hsides hentered hone).mp hstraddles
    apply hspread.extent_eq_succ hsides hentered hone hbs hfs

/-- A program with a section before its `.ORG`, one on both sides of it and one after it. -/
def Program.straddling : Program :=
  [{ kind := .data .byte (.literal (.decimal 1)) },
    { kind := .opening ⟨"code", { readable := true, executable := true }⟩ },
    { kind := .data .word (.literal (.decimal 2)) },
    { kind := .origin .org (.literal (.hexadecimal 16)) },
    { kind := .data .word (.literal (.decimal 3)) },
    { kind := .opening ⟨"data", { readable := true, writable := true }⟩ },
    { kind := .data .byte (.literal (.decimal 4)) }]

theorem bounds_assemble_straddling :
  (assemble .straddling { id := 0 } {}).outcome.map (fun a => a.sections.map (·.bounds))
    = .ok [⟨12, 13, 13, 1⟩, ⟨13, 18, 14, 4⟩, ⟨18, 19, 18, 1⟩]
  := by
  cbv

theorem boundsLaw_of_assemble_straddling :
  ∃ a s, (assemble .straddling { id := 0 } {}).outcome = .ok a ∧ s ∈ a.sections
    ∧ s.bounds.extent = 5 ∧ s.bounds.byteCount = 4 ∧ BoundsLaw .straddling a s
  := by
  obtain ⟨a, ha, hbounds⟩ := Except.map_eq_ok_iff.mp bounds_assemble_straddling
  have hmem : (⟨13, 18, 14, 4⟩ : Bounds) ∈ a.sections.map (·.bounds) := by simp [hbounds]
  obtain ⟨s, hs, heq⟩ := List.mem_map.mp hmem
  refine ⟨a, s, ha, hs, ?_, ?_, boundsLaw_of_assemble ha hs⟩
  · rw [heq]
    rfl
  · rw [heq]

end Pep10
