import Pep10.Image
import Pep10.Proofs.StoredLines
import Mathlib.Data.List.Pairwise
import Mathlib.Algebra.Order.BigOperators.Group.List

/-!
# Raw images

A raw image holds the code of every stored line at its address, from the lowest such address to
the highest, and zeros elsewhere.  There is none exactly when a stored line goes beyond the last
address, or when two of them have an address in common.
-/

namespace Pep10

/-! ### Setting bytes -/

namespace Cells

variable {start : Nat} {cells cells' : Cells} {b : Nat × UInt8} {bs : List (Nat × UInt8)}

/-- Set a byte, whatever stood in its place. -/
def set (start : Nat) (cells : Cells) (b : Nat × UInt8) : Cells :=
  cells.setIfInBounds (b.1 - start) (some b.2)

@[simp]
theorem size_set (start : Nat) (cells : Cells) (b : Nat × UInt8) :
  (cells.set start b).size = cells.size
  := Array.size_setIfInBounds

theorem getElem?_set_self (h : b.1 - start < cells.size) :
  (cells.set start b)[b.1 - start]? = some (some b.2)
  := by
  rw [set, Array.getElem?_setIfInBounds_self_of_lt h]

theorem getElem?_set_of_ne (hb : start ≤ b.1) {j : Nat} (hj : b.1 ≠ start + j) :
  (cells.set start b)[j]? = cells[j]?
  := by
  rw [set, Array.getElem?_setIfInBounds_ne (by omega)]

/-- A byte is set where none has been set. -/
theorem put_eq_ok_iff (h : b.1 - start < cells.size) :
  put start cells b = .ok cells' ↔ cells[b.1 - start]? = some none ∧ cells' = cells.set start b
  := by
  rw [put]
  cases hb : cells[b.1 - start] with
  | some byte => simp [h, hb]
  | none => simp [h, hb, set, eq_comm]

/-- Bytes are set at different addresses where none has been set. -/
theorem foldlM_put_eq_ok_iff (h : ∀ b ∈ bs, start ≤ b.1 ∧ b.1 - start < cells.size) :
  bs.foldlM (put start) cells = .ok cells'
    ↔ ((bs.map (·.1)).Nodup ∧ ∀ b ∈ bs, cells[b.1 - start]? = some none)
      ∧ cells' = bs.foldl (set start) cells
  := by
  induction bs generalizing cells with
  | nil => simp [pure, Except.pure, eq_comm]
  | cons b bs ih =>
      rw [List.forall_mem_cons] at h
      obtain ⟨⟨hstart, hlt⟩, hbs⟩ := h
      have hnone : ∀ c ∈ bs, (cells.set start b)[c.1 - start]? = some none
          ↔ b.1 ≠ c.1 ∧ cells[c.1 - start]? = some none := by
        intro c hc
        by_cases hbc : b.1 = c.1
        · rw [← hbc, getElem?_set_self hlt]
          simp
        · have hc := hbs c hc
          rw [getElem?_set_of_ne hstart (by omega)]
          simp [hbc]
      rw [List.foldlM_cons, Except.bind_eq_ok_iff]
      simp only [put_eq_ok_iff hlt]
      constructor
      · rintro ⟨_, ⟨hb, rfl⟩, hput⟩
        obtain ⟨⟨hnodup, hrest⟩, rfl⟩ := (ih (by simpa using hbs)).mp hput
        refine ⟨⟨?_, ?_⟩, rfl⟩
        · rw [List.map_cons, List.nodup_cons]
          refine ⟨?_, hnodup⟩
          intro hmem
          obtain ⟨c, hc, hbc⟩ := List.mem_map.mp hmem
          apply ((hnone c hc).mp (hrest c hc)).1 hbc.symm
        · rw [List.forall_mem_cons]
          use hb
          intro c hc
          apply ((hnone c hc).mp (hrest c hc)).2
      · rintro ⟨⟨hnodup, hcells⟩, rfl⟩
        rw [List.map_cons, List.nodup_cons] at hnodup
        rw [List.forall_mem_cons] at hcells
        refine ⟨_, ⟨hcells.1, rfl⟩, (ih (by simpa using hbs)).mpr ⟨⟨hnodup.2, ?_⟩, rfl⟩⟩
        intro c hc
        apply (hnone c hc).mpr
        refine ⟨?_, hcells.2 c hc⟩
        intro hbc
        apply hnodup.1
        rw [hbc]
        apply List.mem_map_of_mem hc

@[simp]
theorem size_foldl_set (start : Nat) (cells : Cells) (bs : List (Nat × UInt8)) :
  (bs.foldl (set start) cells).size = cells.size
  := by
  induction bs generalizing cells with
  | nil => rfl
  | cons b bs ih => rw [List.foldl_cons, ih, size_set]

theorem getElem?_foldl_set_of_ne (h : ∀ b ∈ bs, start ≤ b.1) {j : Nat}
    (hj : ∀ b ∈ bs, b.1 ≠ start + j) :
  (bs.foldl (set start) cells)[j]? = cells[j]?
  := by
  induction bs generalizing cells with
  | nil => rfl
  | cons b bs ih =>
      rw [List.forall_mem_cons] at h hj
      rw [List.foldl_cons, ih h.2 hj.2, getElem?_set_of_ne h.1 hj.1]

/-- Bytes at different addresses stay where they were set. -/
theorem getElem?_foldl_set_of_mem (h : ∀ b ∈ bs, start ≤ b.1 ∧ b.1 - start < cells.size)
    (hnodup : (bs.map (·.1)).Nodup) (hb : b ∈ bs) :
  (bs.foldl (set start) cells)[b.1 - start]? = some (some b.2)
  := by
  induction bs generalizing cells with
  | nil => cases hb
  | cons c bs ih =>
      rw [List.forall_mem_cons] at h
      rw [List.map_cons, List.nodup_cons] at hnodup
      rw [List.foldl_cons]
      obtain rfl | hb := List.mem_cons.mp hb
      · rw [getElem?_foldl_set_of_ne fun c hc => (h.2 c hc).1]
        · apply getElem?_set_self h.1.2
        · intro c hc hbc
          have hbc : c.1 = b.1 := by omega
          apply hnodup.1
          rw [← hbc]
          apply List.mem_map_of_mem hc
      · apply ih (by simpa using h.2) hnodup.2 hb

end Cells

/-! ### Images of pieces -/

namespace Piece

variable {p : Piece} {c : Nat × UInt8}

theorem mem_cells_iff :
  c ∈ p.cells ↔ ∃ i, p.bytes[i]? = some c.2 ∧ c.1 = p.address + i
  := by
  obtain ⟨x, byte⟩ := c
  rw [cells, List.mem_map]
  constructor
  · rintro ⟨⟨byte, i⟩, hmem, ⟨⟩⟩
    exact ⟨i, List.mem_zipIdx_iff_getElem?.mp hmem, rfl⟩
  · rintro ⟨i, hi, rfl⟩
    exact ⟨(byte, i), List.mem_zipIdx_iff_getElem?.mpr hi, rfl⟩

theorem map_fst_cells (p : Piece) :
  p.cells.map (·.1) = List.range' p.address p.bytes.length
  := by
  have hindices : p.cells.map (·.1) = (p.bytes.zipIdx.map (·.2)).map (p.address + ·) := by
    rw [cells, List.map_map, List.map_map]
    rfl
  rw [hindices, List.zipIdx_map_snd, List.map_add_range', Nat.add_zero]

end Piece

theorem isLeast_foldl_min (p : Piece) (rest : List Piece) :
  IsLeast {x | ∃ q ∈ p :: rest, q.address = x}
    (rest.foldl (fun least q => min least q.address) p.address)
  := by
  have hmin : ((p :: rest).map (·.address)).min?
      = some (rest.foldl (fun least q => min least q.address) p.address) := by
    rw [List.map_cons, List.min?_cons', List.foldl_map]
  rw [List.min?_eq_some_iff] at hmin
  constructor
  · apply List.mem_map.mp hmin.1
  · rintro _ ⟨q, hq, rfl⟩
    apply hmin.2 _ (List.mem_map_of_mem hq)

theorem isGreatest_foldl_max (p : Piece) (rest : List Piece) :
  IsGreatest {x | ∃ q ∈ p :: rest, q.stop = x}
    (rest.foldl (fun greatest q => max greatest q.stop) p.stop)
  := by
  have hmax : ((p :: rest).map (·.stop)).max?
      = some (rest.foldl (fun greatest q => max greatest q.stop) p.stop) := by
    rw [List.map_cons, List.max?_cons', List.foldl_map]
  rw [List.max?_eq_some_iff] at hmax
  constructor
  · apply List.mem_map.mp hmax.1
  · rintro _ ⟨q, hq, rfl⟩
    apply hmax.2 _ (List.mem_map_of_mem hq)

/-- The image goes from the lowest to the highest address. -/
theorem imageOfPieces_cons (p : Piece) (rest : List Piece) :
  ∃ start stop, IsLeast {x | ∃ q ∈ p :: rest, q.address = x} start
    ∧ IsGreatest {x | ∃ q ∈ p :: rest, q.stop = x} stop
    ∧ ∀ image, imageOfPieces (p :: rest) = .ok image
      ↔ stop ≤ 0x10000 ∧ ∃ cells, ((p :: rest).flatMap Piece.cells).foldlM (Cells.put start)
          (Array.replicate (stop - start) none) = .ok cells
        ∧ image = cells.toList.map (·.getD 0)
  := by
  refine ⟨_, _, isLeast_foldl_min p rest, isGreatest_foldl_max p rest, ?_⟩
  intro image
  rw [imageOfPieces]
  split
  · next hwraps =>
    constructor
    · intro himage
      cases himage
    · rintro ⟨hle, -⟩
      omega
  · next hwraps =>
    rw [and_iff_right (Nat.le_of_not_lt hwraps)]
    apply Except.bind_eq_ok_iff.trans
    constructor
    · rintro ⟨cells, hcells, ⟨⟩⟩
      exact ⟨cells, hcells, rfl⟩
    · rintro ⟨cells, hcells, rfl⟩
      exact ⟨cells, hcells, rfl⟩

/-- The pieces have no address in common. -/
theorem nodup_cells_iff {ps : List Piece} :
  ((ps.flatMap Piece.cells).map (·.1)).Nodup
    ↔ ps.Pairwise fun p q => ∀ x, p.address ≤ x → x < p.stop → q.address ≤ x → ¬ x < q.stop
  := by
  have hpiece : ∀ p ∈ ps, (p.cells.map (·.1)).Nodup := by
    intro p _
    rw [Piece.map_fst_cells]
    exact List.nodup_range'
  rw [List.map_flatMap, List.nodup_flatMap, and_iff_right hpiece]
  apply List.Pairwise.iff
  intro p q
  rw [Function.onFun, Piece.map_fst_cells, Piece.map_fst_cells, List.disjoint_left]
  simp only [List.mem_range'_1, Piece.stop, not_and, and_imp]

section

variable {ps : List Piece} {start stop : Nat}

theorem cell_bounds (hstart : IsLeast {x | ∃ p ∈ ps, p.address = x} start)
    (hstop : IsGreatest {x | ∃ p ∈ ps, p.stop = x} stop) :
  ∀ c ∈ ps.flatMap Piece.cells, start ≤ c.1
    ∧ c.1 - start < (Array.replicate (stop - start) (none : Option UInt8)).size
  := by
  intro c hc
  obtain ⟨p, hp, hc⟩ := List.mem_flatMap.mp hc
  obtain ⟨i, hi, hcell⟩ := Piece.mem_cells_iff.mp hc
  have hleast : start ≤ p.address := hstart.2 ⟨p, hp, rfl⟩
  have hgreatest : p.stop ≤ stop := hstop.2 ⟨p, hp, rfl⟩
  have hlt := (List.getElem?_eq_some_iff.mp hi).1
  rw [Piece.stop] at hgreatest
  rw [Array.size_replicate]
  omega

/-- Pieces have an image if none of them goes beyond the last address and all of their addresses
are different. -/
theorem exists_imageOfPieces_iff (ps : List Piece) :
  (∃ image, imageOfPieces ps = .ok image)
    ↔ (∀ p ∈ ps, p.stop ≤ 0x10000) ∧ ((ps.flatMap Piece.cells).map (·.1)).Nodup
  := by
  cases ps with
  | nil => simp [imageOfPieces]
  | cons p rest =>
      obtain ⟨start, stop, hstart, hstop, himage⟩ := imageOfPieces_cons p rest
      have hbounds := cell_bounds hstart hstop
      have hnone : ∀ c ∈ (p :: rest).flatMap Piece.cells,
          (Array.replicate (stop - start) (none : Option UInt8))[c.1 - start]? = some none := by
        intro c hc
        have hlt := (hbounds c hc).2
        rw [Array.size_replicate] at hlt
        rw [Array.getElem?_replicate, if_pos hlt]
      have hstops : (∀ q ∈ p :: rest, q.stop ≤ 0x10000) ↔ stop ≤ 0x10000 := by
        constructor
        · intro h
          obtain ⟨q, hq, rfl⟩ := hstop.1
          apply h q hq
        · intro h q hq
          apply Nat.le_trans (hstop.2 ⟨q, hq, rfl⟩) h
      simp only [himage, Cells.foldlM_put_eq_ok_iff hbounds, hstops]
      constructor
      · rintro ⟨_, hle, _, ⟨⟨hnodup, -⟩, -⟩, -⟩
        exact ⟨hle, hnodup⟩
      · rintro ⟨hle, hnodup⟩
        exact ⟨_, hle, _, ⟨⟨hnodup, hnone⟩, rfl⟩, rfl⟩

/-- What an image of pieces holds. -/
structure IsImageOf (ps : List Piece) (image : List UInt8) (start stop : Nat) : Prop where
  least : IsLeast {x | ∃ p ∈ ps, p.address = x} start
  greatest : IsGreatest {x | ∃ p ∈ ps, p.stop = x} stop
  length_eq : image.length = stop - start
  code : ∀ p ∈ ps, ∀ i byte, p.bytes[i]? = some byte →
    image[p.address - start + i]? = some byte
  gap : ∀ j, j < stop - start →
    (∀ p ∈ ps, ¬ (p.address ≤ start + j ∧ start + j < p.stop)) → image[j]? = some 0

theorem exists_isImageOf {image : List UInt8} (h : imageOfPieces ps = .ok image) (hne : ps ≠ []) :
  ∃ start stop, IsImageOf ps image start stop
  := by
  obtain ⟨p, rest, rfl⟩ := List.exists_cons_of_ne_nil hne
  obtain ⟨start, stop, hstart, hstop, himage⟩ := imageOfPieces_cons p rest
  have hbounds := cell_bounds hstart hstop
  obtain ⟨-, cells, hcells, rfl⟩ := (himage image).mp h
  obtain ⟨⟨hnodup, -⟩, rfl⟩ := (Cells.foldlM_put_eq_ok_iff hbounds).mp hcells
  use start, stop
  refine {
    least := hstart
    greatest := hstop
    length_eq := ?_
    code := ?_
    gap := ?_ }
  · simp
  · intro q hq i byte hi
    have hmem : (q.address + i, byte) ∈ (p :: rest).flatMap Piece.cells :=
      List.mem_flatMap.mpr ⟨q, hq, Piece.mem_cells_iff.mpr ⟨i, hi, rfl⟩⟩
    have hget := Cells.getElem?_foldl_set_of_mem hbounds hnodup hmem
    have hle : start ≤ q.address := hstart.2 ⟨q, hq, rfl⟩
    have hindex : q.address - start + i = q.address + i - start := by omega
    rw [hindex, List.getElem?_map, Array.getElem?_toList, hget]
    rfl
  · intro j hj hgap
    have hfree : ∀ c ∈ (p :: rest).flatMap Piece.cells, c.1 ≠ start + j := by
      intro c hc hcj
      obtain ⟨q, hq, hc⟩ := List.mem_flatMap.mp hc
      obtain ⟨i, hi, hcell⟩ := Piece.mem_cells_iff.mp hc
      have hlt := (List.getElem?_eq_some_iff.mp hi).1
      apply hgap q hq
      rw [Piece.stop]
      omega
    rw [List.getElem?_map, Array.getElem?_toList,
      Cells.getElem?_foldl_set_of_ne (fun c hc => (hbounds c hc).1) hfree,
      Array.getElem?_replicate, if_pos hj]
    rfl

end

/-! ### Stored sections -/

theorem storedSections_cons (g : Segment) (gs : List Segment) :
  storedSections (g :: gs) = (if g.isZeroed then [] else g.sections) ++ storedSections gs
  := by
  cases hg : g.isZeroed with
  | true => simp [storedSections, hg]
  | false => simp [storedSections, hg]

theorem Section.storedSize_of_isVacant {s : Section} (h : s.isVacant) :
  s.storedSize = 0
  := by
  simp only [isVacant, Bool.and_eq_true, decide_eq_true_eq] at h
  rw [storedSize, h.2, ite_self]

theorem Section.storedSize_of_isZeroed {s : Section} (h : s.isZeroed) :
  s.storedSize = 0
  := by
  rw [storedSize, if_pos h]

namespace Segment

/-- A segment that starts with a zeroed section has no bytes. -/
def Sound (g : Segment) : Prop :=
  g.isZeroed → g.fileSize = 0

variable {g : Segment} {s : Section} {index : Nat}

theorem sound_single (index : Nat) (s : Section) :
  (single index s).Sound
  := Section.storedSize_of_isZeroed

/-- Only zeroed sections join a segment without bytes. -/
theorem Sound.isZeroed_of_admits (hg : g.Sound) (h : g.admits s) (hzeroed : g.isZeroed) :
  s.isZeroed
  := by
  by_contra hs
  rw [admits, if_neg hs, hg hzeroed] at h
  simp at h

theorem Sound.join (hg : g.Sound) (h : g.admits s) (index : Nat) :
  (g.join index s).Sound
  := by
  intro hzeroed
  have hs := hg.isZeroed_of_admits h hzeroed
  rw [Segment.join, hg hzeroed, Section.storedSize_of_isZeroed hs]

variable {β : Type} {f : Nat → List β}

theorem flatMap_single (hf : s.storedSize = 0 → f index = []) :
  (storedSections [single index s]).flatMap f = f index
  := by
  rw [storedSections_cons]
  split
  · next hzeroed =>
    rw [hf (Section.storedSize_of_isZeroed hzeroed)]
    rfl
  · simp [single, storedSections]

theorem Sound.flatMap_join (hg : g.Sound) (h : g.admits s)
    (hf : s.storedSize = 0 → f index = []) :
  (storedSections [g.join index s]).flatMap f = (storedSections [g]).flatMap f ++ f index
  := by
  rw [storedSections_cons, storedSections_cons]
  cases hzeroed : g.isZeroed with
  | true =>
      have hs := hg.isZeroed_of_admits h hzeroed
      simp [Segment.join, hzeroed, hf (Section.storedSize_of_isZeroed hs), storedSections]
  | false => simp [Segment.join, hzeroed, storedSections]

end Segment

/-- Going through the stored sections finds all bytes: sections that are left out have none. -/
theorem flatMap_storedSections_collect {β : Type} {f : Nat → List β}
    {sections : List (Section × Nat)} (hf : ∀ x ∈ sections, x.1.storedSize = 0 → f x.2 = [])
    {current : Option Segment} (hcurrent : ∀ g ∈ current, g.Sound) :
  (storedSections (Segment.collect current sections)).flatMap f
    = (storedSections current.toList).flatMap f ++ sections.flatMap fun x => f x.2
  := by
  induction sections generalizing current with
  | nil => simp [Segment.collect]
  | cons x sections ih =>
      obtain ⟨s, index⟩ := x
      rw [List.forall_mem_cons] at hf
      have hsingle : ∀ g ∈ some (Segment.single index s), g.Sound := by
        rintro _ ⟨⟩
        apply Segment.sound_single
      rw [List.flatMap_cons]
      cases current with
      | none =>
          rw [Segment.collect]
          split
          · next hvacant =>
            rw [ih hf.2 hcurrent, hf.1 (Section.storedSize_of_isVacant hvacant), List.nil_append]
          · rw [ih hf.2 hsingle, Option.toList_some, Segment.flatMap_single hf.1]
            rfl
      | some g =>
          have hg : g.Sound := hcurrent g rfl
          rw [Segment.collect]
          split
          · next hvacant =>
            rw [ih hf.2 hcurrent, hf.1 (Section.storedSize_of_isVacant hvacant), List.nil_append]
          · split
            · next hadmits =>
              have hjoin : ∀ g' ∈ some (g.join index s), g'.Sound := by
                rintro _ ⟨⟩
                apply hg.join hadmits
              rw [ih hf.2 hjoin, Option.toList_some, Option.toList_some,
                hg.flatMap_join hadmits hf.1, List.append_assoc]
            · rw [storedSections_cons, List.flatMap_append, ih hf.2 hsingle, Option.toList_some,
                Option.toList_some, Segment.flatMap_single hf.1, storedSections_cons,
                List.flatMap_append]
              simp [storedSections]

theorem flatMap_storedSections_segments {β : Type} {f : Nat → List β} {sections : List Section}
    (hf : ∀ x ∈ sections.zipIdx, x.1.storedSize = 0 → f x.2 = []) :
  (storedSections (segments sections)).flatMap f = sections.zipIdx.flatMap fun x => f x.2
  := by
  rw [segments, flatMap_storedSections_collect hf]
  · rfl
  · rintro g ⟨⟩

/-! ### Pieces of an assembly -/

theorem Except.mapM_eq_ok_map {ε α β : Type} {f : α → Except ε β} {g : α → β} {xs : List α}
    (h : ∀ x ∈ xs, f x = .ok (g x)) :
  xs.mapM f = .ok (xs.map g)
  := by
  rw [Except.mapM_eq_ok_iff, List.forall₂_map_right_iff, List.forall₂_same]
  apply h

/-- The code of a stored line at its address. -/
def Assembly.pieceOf (a : Assembly) (x : LineId × Address) : Piece :=
  ⟨x.2.address.toNat, a.codeOf x.1⟩

/-- The codes of the stored lines of a section. -/
def Assembly.piecesAt (a : Assembly) (index : Nat) : List Piece :=
  ((a.sections[index]?.map a.storedIn).getD []).map a.pieceOf

theorem Text.slice?_eq_extract {α : Type} {xs : List α} {start stop : Nat} (h : start ≤ stop)
    (hstop : stop ≤ xs.length) :
  Text.slice? xs start stop = some (xs.extract start stop)
  := by
  rw [Text.slice?, if_pos ⟨h, hstop⟩]

namespace Assembly.Emits

variable {a : Assembly} {resolve : SymbolRef → Option UInt64} {codes : List SectionCode} {i : Nat}
  {s : Section} {l : NumberedLine} {e : Address}

/-- A stored line has as many bytes as its address says, and at least one. -/
theorem length_codeOf (h : a.Emits resolve codes) {line : LineId} (hline : a.Stores line e) :
  (a.codeOf line).length = e.size.toNat ∧ 0 < e.size.toNat
  := by
  obtain ⟨he, s, hs, hzeroed, hline⟩ := hline
  obtain ⟨l, hl, rfl⟩ := List.mem_map.mp hline
  obtain ⟨i, hi⟩ := List.mem_iff_getElem?.mp hs
  obtain ⟨span, -, -, -, -, hlength, -⟩ := h.exists_span hi hzeroed hl he
  use hlength
  apply Nat.pos_of_ne_zero
  intro hsize
  apply ((h.sized s hs).of_some l hl e he).1
  apply UInt16.toNat_inj.mp hsize

theorem piece?_eq (h : a.Emits resolve codes) (hs : a.sections[i]? = some s)
    (hzeroed : ¬ s.isZeroed) (hl : l ∈ s.lines) :
  a.piece? (a.sectionBytes i) s.name l
    = .ok ((a.addresses.get? l.id).map fun e => a.pieceOf (l.id, e))
  := by
  cases he : a.addresses.get? l.id with
  | none => rw [piece?, he]; rfl
  | some e =>
      obtain ⟨span, hspan, rfl, hle, hstop, -⟩ := h.exists_span hs hzeroed hl he
      have hslice : Text.slice? (a.sectionBytes span.index) span.start span.stop
          = some (a.codeOf l.id) := by
        rw [Text.slice?_eq_extract hle hstop, codeOf_eq_extract hspan]
      have hstores : a.Stores l.id e :=
        ⟨he, s, List.mem_of_getElem? hs, hzeroed, List.mem_map_of_mem hl⟩
      have hlength := h.length_codeOf hstores
      cases hcode : a.codeOf l.id with
      | nil =>
          rw [hcode, List.length_nil] at hlength
          omega
      | cons byte bytes =>
          rw [hcode] at hslice
          simp only [piece?, he, hspan, hslice, Option.map_some, pieceOf, hcode]

/-- Lines of a zeroed section have no bytes. -/
theorem piece?_eq_none (h : a.Emits resolve codes) (hs : a.sections[i]? = some s)
    (hzeroed : s.isZeroed) (hl : l ∈ s.lines) :
  a.piece? (a.sectionBytes i) s.name l = .ok none
  := by
  obtain ⟨hbytes, hspans⟩ := h.span_of_isZeroed hs hzeroed
  cases he : a.addresses.get? l.id with
  | none => rw [piece?, he]
  | some e =>
      have hspan := hspans l hl (by rw [LineTable.contains, he, Option.isSome_some])
      simp only [piece?, he, hspan, hbytes]
      rfl

/-- The pieces of a section are the codes of its stored lines. -/
theorem sectionPieces_eq (h : a.Emits resolve codes) (hs : a.sections[i]? = some s) :
  a.sectionPieces i = .ok ((a.storedIn s).map a.pieceOf)
  := by
  rw [sectionPieces, hs]
  by_cases hzeroed : s.isZeroed
  · have hpieces : s.lines.mapM (a.piece? (a.sectionBytes i) s.name)
        = .ok (s.lines.map fun _ => none) :=
      Except.mapM_eq_ok_map fun l hl => h.piece?_eq_none hs hzeroed hl
    simp only [hpieces, storedIn, if_pos hzeroed]
    simp [bind, Except.bind, pure, Except.pure, List.filterMap_map]
  · have hpieces : s.lines.mapM (a.piece? (a.sectionBytes i) s.name)
        = .ok (s.lines.map fun l =>
          (a.addresses.get? l.id).map fun e => a.pieceOf (l.id, e)) :=
      Except.mapM_eq_ok_map fun l hl => h.piece?_eq hs hzeroed hl
    simp only [hpieces, storedIn, if_neg hzeroed, LineTable.entriesOf]
    simp [bind, Except.bind, pure, Except.pure, List.filterMap_map, List.map_filterMap]
    rfl

/-- A section without bytes in the output has no stored lines. -/
theorem storedIn_eq_nil (h : a.Emits resolve codes) (hs : s ∈ a.sections)
    (hsize : s.storedSize = 0) :
  a.storedIn s = []
  := by
  rw [List.eq_nil_iff_forall_not_mem]
  rintro ⟨line, e⟩ hmem
  obtain ⟨hzeroed, hline, he⟩ := mem_storedIn_iff.mp hmem
  have hpos := (h.length_codeOf ⟨he, s, hs, hzeroed, hline⟩).2
  obtain ⟨l, hl, rfl⟩ := List.mem_map.mp hline
  have hle : a.addresses.sizeAt l ≤ (s.lines.map a.addresses.sizeAt).sum :=
    List.le_sum_of_mem (List.mem_map_of_mem hl)
  rw [Section.storedSize, if_neg hzeroed, h.byteCount_eq s hs] at hsize
  rw [LineTable.sizeAt, he, Option.map_some, Option.getD_some] at hle
  omega

/-- The pieces of an assembly are the codes of its stored lines. -/
theorem pieces_eq (h : a.Emits resolve codes) :
  a.pieces (segments a.sections) = .ok (a.storedLines.map a.pieceOf)
  := by
  have hpieces : ∀ i, a.sectionPieces i = .ok (a.piecesAt i) := by
    intro i
    cases hs : a.sections[i]? with
    | none => simp [sectionPieces, piecesAt, hs]
    | some s => rw [h.sectionPieces_eq hs, piecesAt, hs, Option.map_some, Option.getD_some]
  have hnil : ∀ x ∈ a.sections.zipIdx, x.1.storedSize = 0 → a.piecesAt x.2 = [] := by
    intro x hx hsize
    have hs := List.mem_zipIdx_iff_getElem?.mp hx
    simp [piecesAt, hs, h.storedIn_eq_nil (List.mem_of_getElem? hs) hsize]
  have hsections : a.sections.zipIdx.flatMap (fun x => a.piecesAt x.2)
      = a.storedLines.map a.pieceOf := by
    rw [storedLines, List.map_flatMap]
    conv_rhs => rw [← List.zipIdx_map_fst 0 a.sections, List.flatMap_map]
    apply List.flatMap_congr
    intro x hx
    simp [piecesAt, List.mem_zipIdx_iff_getElem?.mp hx]
  rw [pieces, Except.mapM_eq_ok_map fun i _ => hpieces i, ← hsections,
    ← flatMap_storedSections_segments hnil]
  rfl

theorem rawImage_eq (h : a.Emits resolve codes) :
  a.rawImage (segments a.sections) = imageOfPieces (a.storedLines.map a.pieceOf)
  := by
  rw [rawImage, h.pieces_eq]
  rfl

theorem stop_pieceOf (h : a.Emits resolve codes) {x : LineId × Address} (hx : x ∈ a.storedLines) :
  (a.pieceOf x).stop = x.2.address.toNat + x.2.size.toNat
  := by
  rw [Piece.stop, pieceOf, (h.length_codeOf (mem_storedLines_iff.mp hx)).1]

end Assembly.Emits

/-! ### Raw images -/

/-- Two ranges of addresses, which do not wrap around, have an address in common. -/
def Address.Overlaps (e e' : Address) : Prop :=
  ∃ x, e.address.toNat ≤ x ∧ x < e.address.toNat + e.size.toNat
    ∧ e'.address.toNat ≤ x ∧ x < e'.address.toNat + e'.size.toNat

theorem Address.Overlaps.symm {e e' : Address} (h : e.Overlaps e') :
  e'.Overlaps e
  := by
  obtain ⟨x, hle, hlt, hle', hlt'⟩ := h
  exact ⟨x, hle', hlt', hle, hlt⟩

/-- The raw image of an assembly that stores lines. -/
structure Assembly.IsRawImage (a : Assembly) (image : List UInt8) (start stop : Nat) : Prop where
  least : IsLeast {x | ∃ line e, a.Stores line e ∧ e.address.toNat = x} start
  greatest :
    IsGreatest {x | ∃ line e, a.Stores line e ∧ e.address.toNat + e.size.toNat = x} stop
  length_eq : image.length = stop - start
  /-- The code of a line stands at its address. -/
  code : ∀ {line e i}, a.Stores line e → i < e.size.toNat →
    ∃ byte, (a.codeOf line)[i]? = some byte ∧ image[e.address.toNat - start + i]? = some byte
  /-- There are zeros where no line has its code. -/
  gap : ∀ {j}, j < stop - start →
    (∀ line e, a.Stores line e →
      ¬ (e.address.toNat ≤ start + j ∧ start + j < e.address.toNat + e.size.toNat)) →
    image[j]? = some 0

namespace Assembly.Emits

variable {a : Assembly} {resolve : SymbolRef → Option UInt64} {codes : List SectionCode}

/-- The pieces have no address in common if no two stored lines overlap. -/
theorem pairwise_iff (h : a.Emits resolve codes) :
  ((a.storedLines.map a.pieceOf).Pairwise fun p q =>
      ∀ x, p.address ≤ x → x < p.stop → q.address ≤ x → ¬ x < q.stop)
    ↔ ∀ line line' e e', line ≠ line' → a.Stores line e → a.Stores line' e' → ¬ e.Overlaps e'
  := by
  have hoverlaps : ∀ {x y}, x ∈ a.storedLines → y ∈ a.storedLines →
      ((∀ z, (a.pieceOf x).address ≤ z → z < (a.pieceOf x).stop → (a.pieceOf y).address ≤ z →
        ¬ z < (a.pieceOf y).stop) ↔ ¬ x.2.Overlaps y.2) := by
    intro x y hx hy
    rw [h.stop_pieceOf hx, h.stop_pieceOf hy, Address.Overlaps]
    simp only [not_exists, not_and]
    rfl
  have hnodup := h.nodup_storedLines
  rw [List.pairwise_map, List.Pairwise.iff_of_mem (S := fun x y => ¬ x.2.Overlaps y.2) hoverlaps]
  constructor
  · intro hpairwise line line' e e' hne hline hline'
    have hsymm : Std.Symm fun x y : LineId × Address => ¬ x.2.Overlaps y.2 :=
      ⟨fun _ _ hxy hyx => hxy hyx.symm⟩
    apply hpairwise.forall (mem_storedLines_iff.mpr hline) (mem_storedLines_iff.mpr hline')
    intro heq
    apply hne (congrArg Prod.fst heq)
  · intro hall
    apply List.Nodup.pairwise_of_forall_ne hnodup.of_map
    intro x hx y hy hne
    apply hall x.1 y.1 x.2 y.2 _ (mem_storedLines_iff.mp hx) (mem_storedLines_iff.mp hy)
    intro hline
    apply hne (List.inj_on_of_nodup_map hnodup hx hy hline)

/-- There is a raw image if all stored lines end below the last address and no two of them
overlap. -/
theorem exists_rawImage_iff (h : a.Emits resolve codes) :
  (∃ image, a.rawImage (segments a.sections) = .ok image)
    ↔ (∀ line e, a.Stores line e → e.address.toNat + e.size.toNat ≤ 0x10000)
      ∧ ∀ line line' e e', line ≠ line' → a.Stores line e → a.Stores line' e' → ¬ e.Overlaps e'
  := by
  have hstops : (∀ p ∈ a.storedLines.map a.pieceOf, p.stop ≤ 0x10000)
      ↔ ∀ line e, a.Stores line e → e.address.toNat + e.size.toNat ≤ 0x10000 := by
    rw [List.forall_mem_map]
    constructor
    · intro hall line e hline
      have hmem := mem_storedLines_iff.mpr hline
      rw [← h.stop_pieceOf hmem]
      apply hall _ hmem
    · intro hall x hx
      rw [h.stop_pieceOf hx]
      apply hall x.1 x.2 (mem_storedLines_iff.mp hx)
  rw [h.rawImage_eq, exists_imageOfPieces_iff, nodup_cells_iff, h.pairwise_iff, hstops]

/-- There is none if a stored line goes beyond the last address, or if two of them overlap. -/
theorem exists_rawImage_error_iff (h : a.Emits resolve codes) :
  (∃ e, a.rawImage (segments a.sections) = .error e)
    ↔ (∃ line e, a.Stores line e ∧ 0x10000 < e.address.toNat + e.size.toNat)
      ∨ ∃ line line' e e', line ≠ line' ∧ a.Stores line e ∧ a.Stores line' e' ∧ e.Overlaps e'
  := by
  have hfails : (∃ e, a.rawImage (segments a.sections) = .error e)
      ↔ ¬ ∃ image, a.rawImage (segments a.sections) = .ok image := by
    cases a.rawImage (segments a.sections) with
    | error e => simp
    | ok image => simp
  rw [hfails, h.exists_rawImage_iff, not_and_or]
  simp only [not_forall, not_le, not_not, exists_prop]

theorem isRawImage_of_isImageOf (h : a.Emits resolve codes) {image : List UInt8} {start stop : Nat}
    (himage : IsImageOf (a.storedLines.map a.pieceOf) image start stop) :
  a.IsRawImage image start stop
  := by
  have hmem : ∀ {line e}, a.Stores line e →
      a.pieceOf (line, e) ∈ a.storedLines.map a.pieceOf :=
    fun hline => List.mem_map_of_mem (mem_storedLines_iff.mpr hline)
  refine {
    least := ?_
    greatest := ?_
    length_eq := himage.length_eq
    code := ?_
    gap := ?_ }
  · constructor
    · obtain ⟨_, hp, hx⟩ := himage.least.1
      obtain ⟨⟨line, e⟩, hline, rfl⟩ := List.mem_map.mp hp
      exact ⟨line, e, mem_storedLines_iff.mp hline, hx⟩
    · rintro _ ⟨line, e, hline, rfl⟩
      apply himage.least.2 ⟨_, hmem hline, rfl⟩
  · constructor
    · obtain ⟨_, hp, hx⟩ := himage.greatest.1
      obtain ⟨⟨line, e⟩, hline, rfl⟩ := List.mem_map.mp hp
      rw [h.stop_pieceOf hline] at hx
      exact ⟨line, e, mem_storedLines_iff.mp hline, hx⟩
    · rintro _ ⟨line, e, hline, rfl⟩
      apply himage.greatest.2
      exact ⟨_, hmem hline, h.stop_pieceOf (mem_storedLines_iff.mpr hline)⟩
  · intro line e i hline hi
    rw [← (h.length_codeOf hline).1] at hi
    have hbyte := List.getElem?_eq_getElem hi
    exact ⟨_, hbyte, himage.code _ (hmem hline) i _ hbyte⟩
  · intro j hj hgap
    apply himage.gap j hj
    rw [List.forall_mem_map]
    intro x hx
    rw [h.stop_pieceOf hx]
    apply hgap x.1 x.2 (mem_storedLines_iff.mp hx)

end Assembly.Emits

/-- A raw image fails to exist exactly when a stored line goes beyond the last address or overlaps
with another one.  If there is one, it is empty when no line is stored, and else holds the code of
each stored line at its address. -/
theorem assemble_rawImage {program : Program} {symbols : SymbolTable} {options : Options}
    {a : Assembly} (h : (assemble program symbols options).outcome = .ok a) :
  ((∃ e, a.rawImage (segments a.sections) = .error e)
    ↔ (∃ line e, a.Stores line e ∧ 0x10000 < e.address.toNat + e.size.toNat)
      ∨ ∃ line line' e e', line ≠ line' ∧ a.Stores line e ∧ a.Stores line' e' ∧ e.Overlaps e')
  ∧ ∀ image, a.rawImage (segments a.sections) = .ok image →
    ((∀ line e, ¬ a.Stores line e) → image = [])
      ∧ ((∃ line e, a.Stores line e) → ∃ start stop, a.IsRawImage image start stop)
  := by
  obtain ⟨codes, hemits⟩ := exists_emits h
  constructor
  · apply hemits.exists_rawImage_error_iff
  · intro image himage
    rw [hemits.rawImage_eq] at himage
    constructor
    · intro hnone
      have hnil : a.storedLines = [] := by
        rw [List.eq_nil_iff_forall_not_mem]
        rintro ⟨line, e⟩ hline
        apply hnone line e (Assembly.mem_storedLines_iff.mp hline)
      rw [hnil] at himage
      cases himage
      rfl
    · rintro ⟨line, e, hline⟩
      have hne : a.storedLines.map a.pieceOf ≠ [] :=
        List.ne_nil_of_mem (List.mem_map_of_mem (Assembly.mem_storedLines_iff.mpr hline))
      obtain ⟨start, stop, hof⟩ := exists_isImageOf himage hne
      exact ⟨start, stop, hemits.isRawImage_of_isImageOf hof⟩

/-- Code before and after a zeroed section. -/
def Program.parted : Program :=
  [{ kind := .data .byte (.literal (.decimal 1)) },
    { kind := .opening ⟨"zeros", { writable := true, zeroed := true }⟩ },
    { kind := .block (.literal (.decimal 2)) },
    { kind := .opening ⟨"more", { readable := true }⟩ },
    { kind := .data .word (.literal (.hexadecimal 0x0203)) }]

theorem rawImage_parted :
  (assemble .parted { id := 0 } {}).outcome.map
    (fun a => (a.sections.map (fun s => (s.isZeroed, s.lines.map (·.id))), a.addresses.get? 0,
      a.rawImage (segments a.sections)))
    = .ok ([(false, [0]), (true, [1, 2]), (false, [3, 4])], some ⟨0, 1⟩, .ok [1, 0, 0, 2, 3])
  := by
  cbv

theorem assemble_rawImage_parted :
  ∃ a, (assemble .parted { id := 0 } {}).outcome = .ok a
    ∧ a.rawImage (segments a.sections) = .ok [1, 0, 0, 2, 3]
    ∧ ∃ start stop, a.IsRawImage [1, 0, 0, 2, 3] start stop
  := by
  obtain ⟨a, ha, heq⟩ := Except.map_eq_ok_iff.mp rawImage_parted
  rw [Prod.mk.injEq, Prod.mk.injEq] at heq
  obtain ⟨hsections, haddress, himage⟩ := heq
  have hstores : a.Stores 0 ⟨0, 1⟩ := by
    have hmem : (false, [0]) ∈ a.sections.map (fun s => (s.isZeroed, s.lines.map (·.id))) := by
      rw [hsections]
      apply List.mem_cons_self
    obtain ⟨s, hs, heq⟩ := List.mem_map.mp hmem
    rw [Prod.mk.injEq] at heq
    use haddress, s, hs
    simp [heq.1, heq.2]
  exact ⟨a, ha, himage, ((assemble_rawImage ha).2 _ himage).2 ⟨0, _, hstores⟩⟩

end Pep10
