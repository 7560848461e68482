import Pep10.Proofs.Layout.Bounds
import Mathlib.Data.List.Forall2

/-!
# Walking back

A backward walk keeps the last address that is free, a forward walk the next one.  So a forward walk
that starts one address above the exit of a backward walk goes over the same lines again, in the
other order, and ends one address above the base where the backward walk began.  Each line has the
same size and the same address both times, unless it takes no bytes: then there is no byte it could
lie at, and a backward walk puts it one address lower.

This needs lines whose size does not depend on their address and which do not fix one, that is,
lines other than `.ALIGN` and `.ORG`.
-/

namespace Pep10

/-! ### Lines that can be moved -/

/-- Does a line take the bytes up to a multiple of its operand? -/
def NumberedLine.IsAlign (l : NumberedLine) : Prop :=
  ∃ a, l.line.kind = .align a

/-- A line that takes as many bytes at one address as at another and goes where the lines around it
are. -/
structure NumberedLine.Movable (l : NumberedLine) : Prop where
  not_org : ¬ l.IsOrg
  not_align : ¬ l.IsAlign

theorem NumberedLine.size_eq_size {l : NumberedLine} (h : ¬ l.IsAlign) (base base' : UInt16) :
  l.line.size base = l.line.size base'
  := by
  rw [Line.size, Line.size, Line.size?, Line.size?]
  cases hkind : l.line.kind with
  | align a => cases h ⟨a, hkind⟩
  | data kind a => cases kind <;> rfl
  | _ => rfl

/-! ### Placements in both directions -/

/-- The placements of one line by a backward walk and by a forward walk. -/
structure Placement.Mirrors (p q : Placement) : Prop where
  line_eq : q.line = p.line
  size_eq : q.size = p.size
  /-- A line without bytes is at the base where it is visited. -/
  address_eq : q.address = if p.size = 0 then p.address + 1 else p.address

theorem Placement.Mirrors.entry?_eq {p q : Placement} (h : p.Mirrors q) :
  q.entry? = p.entry?
  := by
  unfold Placement.entry?
  rw [h.line_eq, h.size_eq, h.address_eq]
  split
  · rfl
  · rfl

theorem filterMap_entry?_eq_of_mirrors {ps qs : List Placement}
    (h : List.Forall₂ Placement.Mirrors ps qs) :
  qs.filterMap Placement.entry? = ps.filterMap Placement.entry?
  := by
  induction h with
  | nil => rfl
  | cons hpq _ ih => rw [List.filterMap_cons, List.filterMap_cons, hpq.entry?_eq, ih]

theorem totalSize_eq_of_mirrors {ps qs : List Placement}
    (h : List.Forall₂ Placement.Mirrors ps qs) :
  totalSize qs = totalSize ps
  := by
  induction h with
  | nil => rfl
  | cons hpq _ ih => rw [totalSize, totalSize, hpq.size_eq, ih]

namespace Pass

variable {back forth : Pass} {base next exit : UInt16} {l : NumberedLine}
  {lines : List NumberedLine} {p : Placement}

/-- A forward walk takes back one step of a backward walk. -/
theorem exists_place_mirrors (hback : back.direction = .backward)
    (hforth : forth.direction = .forward) (hl : l.Movable)
    (h : back.place base l = .ok (p, next)) :
  ∃ q, forth.place (next + 1) l = .ok (q, base + 1) ∧ p.Mirrors q
  := by
  have hplaceable := (back.place_isOk_iff base l).mp ⟨p, next, h⟩
  obtain ⟨q, next', hq⟩ := (forth.place_isOk_iff (next + 1) l).mpr hplaceable
  obtain ⟨hnext, haddress⟩ := place_backward h hback hl.not_org
  obtain ⟨haddress', hnext'⟩ := place_forward hq hforth hl.not_org
  have hsize : q.size = p.size := by
    rw [(place_faithful hq).size_eq, (place_faithful h).size_eq, place_line hq, place_line h]
    apply NumberedLine.size_eq_size hl.not_align
  -- the forward walk goes up by as much as the backward walk went down
  have hend : next' = base + 1 := by
    rw [hnext', hsize, hnext]
    grind
  refine ⟨q, hend ▸ hq, ?_, hsize, ?_⟩
  · rw [place_line hq, place_line h]
  · rw [haddress', haddress]
    split
    · rfl
    · rfl

theorem visit_append (h : (forth.visit base lines).outcome = .ok exit)
    (rest : List NumberedLine) :
  (forth.visit base (lines ++ rest)).outcome = (forth.visit exit rest).outcome
    ∧ (forth.visit base (lines ++ rest)).placements
      = (forth.visit base lines).placements ++ (forth.visit exit rest).placements
  := by
  induction lines generalizing base with
  | nil =>
      cases h
      exact ⟨rfl, rfl⟩
  | cons l lines ih =>
      obtain ⟨p, next, hplace, hlines⟩ := visit_cons_eq_ok_iff.mp h
      obtain ⟨houtcome, hplacements⟩ := ih hlines
      rw [List.cons_append, placements_visit_cons hplace, placements_visit_cons hplace,
        hplacements, List.cons_append]
      refine ⟨?_, rfl⟩
      rw [visit, hplace]
      apply houtcome

/-- A forward walk takes back a backward walk, from its last line to its first. -/
theorem visit_mirrors (hback : back.direction = .backward) (hforth : forth.direction = .forward)
    (hlines : ∀ l ∈ lines, l.Movable) (h : (back.visit base lines).outcome = .ok exit) :
  (forth.visit (exit + 1) lines.reverse).outcome = .ok (base + 1)
    ∧ List.Forall₂ Placement.Mirrors (back.visit base lines).placements.reverse
      (forth.visit (exit + 1) lines.reverse).placements
  := by
  induction lines generalizing base with
  | nil =>
      cases h
      exact ⟨rfl, .nil⟩
  | cons l lines ih =>
      rw [List.forall_mem_cons] at hlines
      obtain ⟨p, next, hplace, hrest⟩ := visit_cons_eq_ok_iff.mp h
      -- what the backward walk visits first comes last in the forward walk
      obtain ⟨hexit, hmirrors⟩ := ih hlines.2 hrest
      obtain ⟨q, hq, hpq⟩ := exists_place_mirrors hback hforth hlines.1 hplace
      obtain ⟨houtcome, hplacements⟩ := visit_append hexit [l]
      have hlast : (forth.visit (next + 1) [l]).placements = [q] := placements_visit_cons hq
      rw [List.reverse_cons, houtcome, hplacements, placements_visit_cons hplace,
        List.reverse_cons, hlast]
      refine ⟨visit_cons_eq_ok_iff.mpr ⟨q, base + 1, hq, rfl⟩, ?_⟩
      apply List.rel_append hmirrors (.cons hpq .nil)

variable {owner : TableId} {index : Nat} {w w' : Walk}

/-- The backward walk `w` over lines from `base` is taken back by the forward walk `w'` from above
its exit. -/
structure Retraces (owner : TableId) (index : Nat) (base : UInt16) (lines : List NumberedLine)
    (w w' : Walk) : Prop where
  exit_eq : w'.exit = base + 1
  bytes_eq : w'.bytes = w.bytes
  lines_eq : (laid ⟨owner, index, .forward⟩ (w.exit + 1) lines).map (·.line) = lines
  /-- Line by line, the placements of the two walks mirror each other. -/
  placements : List.Forall₂ Placement.Mirrors (laid ⟨owner, index, .backward⟩ base lines)
    (laid ⟨owner, index, .forward⟩ (w.exit + 1) lines)
  /-- The tables are the same if no line comes twice, so that no entry replaces another one. -/
  addresses_eq : (lines.map (·.id)).Nodup →
    (walk ⟨owner, index, .forward⟩ (w.exit + 1) lines).addresses
      = (walk ⟨owner, index, .backward⟩ base lines).addresses

theorem exists_walk_mirrors (hlines : ∀ l ∈ lines, l.Movable)
    (h : (walk ⟨owner, index, .backward⟩ base lines).outcome = .ok w) :
  ∃ w', (walk ⟨owner, index, .forward⟩ (w.exit + 1) lines).outcome = .ok w'
    ∧ w'.exit = base + 1
    ∧ List.Forall₂ Placement.Mirrors (laid ⟨owner, index, .backward⟩ base lines)
      (laid ⟨owner, index, .forward⟩ (w.exit + 1) lines)
  := by
  obtain ⟨exit, hvisit, rfl⟩ := walk_eq_ok_iff.mp h
  have hreverse : ∀ l ∈ lines.reverse, l.Movable := by simpa using hlines
  have hforth : (⟨owner, index, .forward⟩ : Pass).direction = .forward := rfl
  obtain ⟨hexit, hmirrors⟩ := visit_mirrors rfl hforth hreverse hvisit
  rw [List.reverse_reverse] at hexit hmirrors
  exact ⟨_, walk_eq_ok_iff.mpr ⟨base + 1, hexit, rfl⟩, rfl, hmirrors⟩

/-- Tables of the same entries are equal, in whichever order they are entered. -/
theorem addresses_eq_of_mirrors {t t' : Traced Walk}
    (h : List.Forall₂ Placement.Mirrors t.placements.reverse t'.placements)
    (hnodup : (t.placements.map (·.line.id)).Nodup) :
  t'.addresses = t.addresses
  := by
  have hentries := filterMap_entry?_eq_of_mirrors h
  rw [List.filterMap_reverse] at hentries
  have hperm : (t'.placements.filterMap Placement.entry?).Perm
      (t.placements.filterMap Placement.entry?) := by
    rw [hentries]
    apply List.reverse_perm
  have hdistinct := nodup_entries hnodup
  have hdistinct' := (hperm.map (·.1)).nodup_iff.mpr hdistinct
  apply LineTable.eq_of_perm (LineTable.increasing_ofInserts _) (LineTable.increasing_ofInserts _)
  apply (LineTable.toList_ofInserts_perm hdistinct').trans
  apply hperm.trans
  apply (LineTable.toList_ofInserts_perm hdistinct).symm

/-- A backward walk succeeds when a forward walk does, wherever they start.  It goes down by the
number of its bytes, and a forward walk takes it back. -/
theorem walk_backward_forward (hlines : ∀ l ∈ lines, l.Movable) (owner : TableId) (index : Nat)
    (base : UInt16) :
  (∀ start, (∃ w, (walk ⟨owner, index, .backward⟩ base lines).outcome = .ok w)
      ↔ ∃ w, (walk ⟨owner, index, .forward⟩ start lines).outcome = .ok w)
    ∧ ∀ w, (walk ⟨owner, index, .backward⟩ base lines).outcome = .ok w →
      (w.exit.toNat : Int) = (base.toNat - w.bytes) % 65536
        ∧ ∃ w', (walk ⟨owner, index, .forward⟩ (w.exit + 1) lines).outcome = .ok w'
          ∧ Retraces owner index base lines w w'
  := by
  constructor
  · intro start
    rw [walk_isOk_iff, walk_isOk_iff]
  · intro w hw
    have horg : ∀ l ∈ lines, ¬ l.IsOrg := fun l hl => (hlines l hl).not_org
    obtain ⟨w', hw', hexit, hmirrors⟩ := exists_walk_mirrors hlines hw
    constructor
    · obtain ⟨hentry, hadd⟩ := entry_eq_add rfl horg hw
      have hbase : base.toNat = (w.exit.toNat + w.bytes % 65536) % 65536 := by
        rw [← hentry, hadd, UInt16.toNat_add, UInt16.toNat_ofNat']
      have hlt := w.exit.toNat_lt
      omega
    · refine ⟨w', hw', hexit, ?_, laid_lines hw', hmirrors, ?_⟩
      · rw [walk_bytes hw, walk_bytes hw', totalSize_eq_of_mirrors hmirrors]
      · intro hnodup
        apply addresses_eq_of_mirrors hmirrors
        rw [← laid_lines hw, List.map_map] at hnodup
        apply ((laid_perm _ _ _).map _).nodup_iff.mp hnodup

/-- Lines with and without bytes that are laid out across the end of memory. -/
def movableLines : List NumberedLine := [
  ⟨0, { kind := .dyadic .ldwa (some .immediate) (.literal (.decimal 1)), symbol? := some 0 }⟩,
  ⟨1, { kind := .equate (.literal (.decimal 7)), symbol? := some 1 }⟩,
  ⟨2, { kind := .comment, symbol? := some 2 }⟩,
  ⟨3, { kind := .data .word (.symbolic "here" ⟨0, 0⟩) }⟩]

theorem forall_mem_movableLines :
  ∀ l ∈ movableLines, l.Movable
  := by
  rw [movableLines, List.forall_mem_cons, List.forall_mem_cons, List.forall_mem_cons,
    List.forall_mem_singleton]
  refine ⟨⟨by decide, ?_⟩, ⟨by decide, ?_⟩, ⟨by decide, ?_⟩, ⟨by decide, ?_⟩⟩
  all_goals
    rintro ⟨a, h⟩
    cases h

theorem walk_backward_forward_across :
  (∀ l ∈ movableLines, l.Movable)
    ∧ (walk ⟨0, 0, .backward⟩ 1 movableLines).outcome
      = .ok { entry := 1, exit := 65532, first? := some 0, bytes := 5 }
    ∧ ∃ w', (walk ⟨0, 0, .forward⟩ 65533 movableLines).outcome = .ok w'
      ∧ Retraces 0 0 1 movableLines
        { entry := 1, exit := 65532, first? := some 0, bytes := 5 } w'
  := by
  have hback : (walk ⟨0, 0, .backward⟩ 1 movableLines).outcome
      = .ok { entry := 1, exit := 65532, first? := some 0, bytes := 5 } := by
    decide
  obtain ⟨-, hretraces⟩ := walk_backward_forward forall_mem_movableLines 0 0 1
  exact ⟨forall_mem_movableLines, hback, (hretraces _ hback).2⟩

end Pass

end Pep10
