import Pep10.Proofs.ObjectText
import Pep10.Proofs.RawImage
import Pep10.Proofs.Stacking

/-!
# The two forms of the output

A raw image is made line by line, from the addresses of the lines.  An object text is made section
by section, in the order of the bases.  They list the same bytes if the lines are stacked: then
the bases of the sections with bytes increase, so that sorting leaves these sections as they are,
and going through memory upward visits the lines in the order of the sections.  Sections without
bytes may have any base, since nothing is listed for them.
-/

namespace Pep10

namespace Assembly

/-- The bytes of the sections that are not zeroed, in the order of the sections. -/
def storedBytes (a : Assembly) : List UInt8 :=
  a.sections.zipIdx.flatMap fun (s, index) => if s.isZeroed then [] else a.sectionBytes index

/-- The addresses of the stored bytes in increasing order. -/
def storedAddresses (a : Assembly) : List Nat :=
  (List.range 0x10000).filter fun x => a.storedLines.any (·.2.Covers x)

/-- The address at which an image begins. -/
def imageStart (a : Assembly) : Nat :=
  a.storedAddresses.headD 0

end Assembly

/-! ### The bytes of the sections -/

theorem LineTable.flatMap_entriesOf {α : Type} {t : LineTable Address} {lines : List NumberedLine}
    {f : LineId → List α} (h : ∀ l ∈ lines, t.get? l.id = none → f l.id = []) :
  (t.entriesOf lines).flatMap (fun x => f x.1) = lines.flatMap fun l => f l.id
  := by
  rw [entriesOf, List.filterMap_eq_flatMap_toList, List.flatMap_assoc]
  apply List.flatMap_congr
  intro l hl
  cases he : t.get? l.id with
  | none =>
      rw [h l hl he]
      rfl
  | some e => simp

namespace Assembly.Emits

variable {a : Assembly} {resolve : SymbolRef → Option UInt64} {codes : List SectionCode} {i : Nat}
  {s : Section}

/-- The bytes of a section are those of its stored lines. -/
theorem sectionBytes_eq_flatMap (h : a.Emits resolve codes) (hs : a.sections[i]? = some s) :
  a.sectionBytes i = (a.storedIn s).flatMap fun x => a.codeOf x.1
  := by
  rw [storedIn]
  split
  · next hzeroed =>
    rw [(h.span_of_isZeroed hs hzeroed).1, List.flatMap_nil]
  · next hzeroed =>
    rw [h.sectionBytes_eq hs hzeroed, LineTable.flatMap_entriesOf]
    intro l _ hl
    apply h.codeOf_eq_nil hl

theorem storedBytes_eq (h : a.Emits resolve codes) :
  a.storedBytes = a.storedLines.flatMap fun x => a.codeOf x.1
  := by
  rw [storedBytes, storedLines, List.flatMap_assoc]
  conv_rhs => rw [← List.zipIdx_map_fst 0 a.sections, List.flatMap_map]
  apply List.flatMap_congr
  rintro ⟨s, i⟩ hx
  by_cases hzeroed : s.isZeroed
  · simp [hzeroed, storedIn]
  · simp [hzeroed, h.sectionBytes_eq_flatMap (List.mem_zipIdx_iff_getElem?.mp hx)]

end Assembly.Emits

/-! ### The order of the sections -/

/-- Elements that yield nothing make no difference to a concatenation. -/
theorem flatMap_filter_ne_nil {α β : Type} [DecidableEq β] (f : α → List β) (xs : List α) :
  (xs.filter (f · ≠ [])).flatMap f = xs.flatMap f
  := by
  induction xs with
  | nil => rfl
  | cons x xs ih =>
      by_cases hx : f x = []
      · rw [List.filter_cons_of_neg (by simpa using hx), ih, List.flatMap_cons, hx,
          List.nil_append]
      · rw [List.filter_cons_of_pos (by simpa using hx), List.flatMap_cons, ih, List.flatMap_cons]

theorem key_trans {α : Type} (key : α → UInt16) (x y z : α) :
  decide (key x ≤ key y) = true → decide (key y ≤ key z) = true → decide (key x ≤ key z) = true
  := by
  simp only [decide_eq_true_eq]
  apply UInt16.le_trans

theorem key_total {α : Type} (key : α → UInt16) (x y : α) :
  (decide (key x ≤ key y) || decide (key y ≤ key x)) = true
  := by
  simp [UInt16.le_total]

/-- The stored sections are in order, up to sections without bytes. -/
theorem filter_storedSections_segments {sections : List Section} {keep : Nat → Bool}
    (hkeep : ∀ x ∈ sections.zipIdx, x.1.storedSize = 0 → keep x.2 = false) :
  (storedSections (segments sections)).filter keep = (sections.zipIdx.map (·.2)).filter keep
  := by
  rw [← List.flatMap_singleton' (storedSections (segments sections)), List.filter_flatMap,
    flatMap_storedSections_segments, ← List.filter_flatMap, ← List.map_eq_flatMap]
  intro x hx hsize
  rw [List.filter_cons_of_neg (by simp [hkeep x hx hsize]), List.filter_nil]

namespace Assembly.Emits

variable {a : Assembly} {resolve : SymbolRef → Option UInt64} {codes : List SectionCode} {i : Nat}
  {s : Section}

/-- A section with bytes has its base at its first line. -/
theorem exists_baseOf_eq (h : a.Emits resolve codes)
    (hbase : ∀ s ∈ a.sections, ∀ x ∈ (a.addresses.entriesOf s.lines).head?,
      s.bounds.base = x.2.address)
    (hs : a.sections[i]? = some s) (hne : a.sectionBytes i ≠ []) :
  ∃ x ∈ a.addresses.entriesOf s.lines, a.baseOf i = x.2.address
  := by
  rw [h.sectionBytes_eq_flatMap hs, storedIn] at hne
  split at hne
  · cases hne rfl
  · cases hentries : a.addresses.entriesOf s.lines with
    | nil =>
        rw [hentries] at hne
        cases hne rfl
    | cons x xs =>
        use x, List.mem_cons_self
        rw [baseOf, hs, Option.map_some, Option.getD_some]
        apply hbase s (List.mem_of_getElem? hs)
        rw [hentries]
        rfl

/-- The bases of the sections with bytes increase. -/
theorem pairwise_baseOf (h : a.Emits resolve codes)
    (hbase : ∀ s ∈ a.sections, ∀ x ∈ (a.addresses.entriesOf s.lines).head?,
      s.bounds.base = x.2.address)
    (hascending : Ascending a.addressedLines) :
  ((a.sections.zipIdx.map (·.2)).filter (a.sectionBytes · ≠ [])).Pairwise
    fun i j => a.baseOf i ≤ a.baseOf j
  := by
  rw [Ascending, addressedLines, LineTable.entriesOf_sectionOrder, List.pairwise_flatMap,
    ← List.zipIdx_map_fst 0 a.sections, List.pairwise_map] at hascending
  rw [List.pairwise_filter, List.pairwise_map]
  apply hascending.2.imp_of_mem
  intro p q hp hq hpq hp' hq'
  have hs := List.mem_zipIdx_iff_getElem?.mp hp
  have ht := List.mem_zipIdx_iff_getElem?.mp hq
  obtain ⟨x, hx, hbasex⟩ := h.exists_baseOf_eq hbase hs (of_decide_eq_true hp')
  obtain ⟨y, hy, hbasey⟩ := h.exists_baseOf_eq hbase ht (of_decide_eq_true hq')
  rw [hbasex, hbasey, UInt16.le_iff_toNat_le]
  apply Nat.le_trans (Nat.le_add_right _ _) (hpq x hx y hy)

theorem sectionBytes_eq_nil (h : a.Emits resolve codes) {x : Section × Nat}
    (hx : x ∈ a.sections.zipIdx) (hsize : x.1.storedSize = 0) :
  a.sectionBytes x.2 = []
  := by
  have hs := List.mem_zipIdx_iff_getElem?.mp hx
  rw [h.sectionBytes_eq_flatMap hs, h.storedIn_eq_nil (List.mem_of_getElem? hs) hsize]
  rfl

/-- Sorting by base leaves the sections with bytes in their order. -/
theorem flatMap_storedByBase (h : a.Emits resolve codes)
    (hbase : ∀ s ∈ a.sections, ∀ x ∈ (a.addresses.entriesOf s.lines).head?,
      s.bounds.base = x.2.address)
    (hascending : Ascending a.addressedLines) :
  (a.storedByBase (segments a.sections)).flatMap a.sectionBytes = a.storedBytes
  := by
  have hsorted : ((storedSections (segments a.sections)).filter (a.sectionBytes · ≠ [])).Pairwise
      fun i j => decide (a.baseOf i ≤ a.baseOf j) = true := by
    rw [filter_storedSections_segments]
    · simpa only [decide_eq_true_eq] using h.pairwise_baseOf hbase hascending
    · intro x hx hsize
      simpa using h.sectionBytes_eq_nil hx hsize
  rw [← flatMap_filter_ne_nil, storedByBase,
    filter_mergeSort_of_pairwise (key_trans a.baseOf) (key_total a.baseOf) hsorted,
    flatMap_filter_ne_nil, flatMap_storedSections_segments fun x hx => h.sectionBytes_eq_nil hx,
    storedBytes]
  apply List.flatMap_congr
  rintro ⟨s, i⟩ hx
  simp only
  split
  · next hzeroed => apply h.sectionBytes_eq_nil hx (Section.storedSize_of_isZeroed hzeroed)
  · rfl

end Assembly.Emits

/-! ### Going through memory -/

/-- Entries one above the other do not overlap. -/
theorem Ascending.not_overlaps {xs : List (LineId × Address)} (h : Ascending xs)
    {x y : LineId × Address} (hx : x ∈ xs) (hy : y ∈ xs) (hne : x ≠ y) :
  ¬ x.2.Overlaps y.2
  := by
  have hsymm : Std.Symm fun x y : LineId × Address => ¬ x.2.Overlaps y.2 :=
    ⟨fun _ _ hxy hyx => hxy hyx.symm⟩
  have hpairwise : xs.Pairwise fun x y => ¬ x.2.Overlaps y.2 := by
    apply List.Pairwise.imp _ h
    rintro x y hxy ⟨z, _, hz, hz', _⟩
    omega
  apply hpairwise.forall hx hy hne

namespace Assembly

variable {a : Assembly} {x : Nat}

theorem mem_storedAddresses_iff :
  x ∈ a.storedAddresses ↔ x < 0x10000 ∧ ∃ line e, a.Stores line e ∧ e.Covers x
  := by
  simp only [storedAddresses, List.mem_filter, List.mem_range, List.any_eq_true, decide_eq_true_eq,
    Prod.exists, mem_storedLines_iff]

theorem pairwise_storedAddresses (a : Assembly) :
  a.storedAddresses.Pairwise (· < ·)
  := List.pairwise_lt_range.filter _

/-- If stored lines lie one above the other, so do their addresses. -/
theorem storedAddresses_eq (hascending : Ascending a.storedLines)
    (hfit : ∀ line e, a.Stores line e → e.address.toNat + e.size.toNat ≤ 0x10000) :
  a.storedAddresses
    = a.storedLines.flatMap fun x => List.range' x.2.address.toNat x.2.size.toNat
  := by
  apply a.pairwise_storedAddresses.eq_of_mem_iff
  · rw [List.pairwise_flatMap]
    constructor
    · intro x _
      exact List.pairwise_lt_range'
    · apply List.Pairwise.imp _ hascending
      intro x y hxy z hz w hw
      rw [List.mem_range'_1] at hz hw
      omega
  · intro z
    rw [mem_storedAddresses_iff, List.mem_flatMap]
    simp only [Prod.exists, mem_storedLines_iff, List.mem_range'_1]
    constructor
    · rintro ⟨-, line, e, hline, hcovers⟩
      exact ⟨line, e, hline, hcovers⟩
    · rintro ⟨line, e, hline, hcovers⟩
      have hstop := hfit line e hline
      exact ⟨by omega, line, e, hline, hcovers⟩

end Assembly

namespace Assembly.IsRawImage

variable {a : Assembly} {image : List UInt8} {start stop : Nat}

/-- An image begins at the first of the stored addresses. -/
theorem imageStart_eq (h : a.IsRawImage image start stop)
    (hpos : ∀ line e, a.Stores line e → 0 < e.size.toNat) :
  a.imageStart = start
  := by
  obtain ⟨line, e, hline, rfl⟩ := h.least.1
  have hmem : e.address.toNat ∈ a.storedAddresses := by
    rw [mem_storedAddresses_iff]
    use e.address.toNat_lt, line, e, hline, Nat.le_refl _
    have hsize := hpos line e hline
    omega
  have hpairwise := a.pairwise_storedAddresses
  rw [imageStart]
  cases haddresses : a.storedAddresses with
  | nil =>
      rw [haddresses] at hmem
      cases hmem
  | cons first rest =>
      have hfirst : first ∈ a.storedAddresses := by
        rw [haddresses]
        apply List.mem_cons_self
      obtain ⟨-, line', e', hline', hcovers⟩ := mem_storedAddresses_iff.mp hfirst
      have hle : e.address.toNat ≤ e'.address.toNat := h.least.2 ⟨line', e', hline', rfl⟩
      rw [haddresses, List.pairwise_cons] at hpairwise
      rw [haddresses] at hmem
      rcases List.mem_cons.mp hmem with heq | hrest
      · rw [heq, List.headD_cons]
      · have hlt := hpairwise.1 _ hrest
        have hge := hcovers.1
        omega

/-- The bytes of a line stand in the image at the addresses of the line. -/
theorem map_range'_eq (h : a.IsRawImage image start stop) {line : LineId} {e : Address}
    (hline : a.Stores line e) (hlength : (a.codeOf line).length = e.size.toNat) :
  (List.range' e.address.toNat e.size.toNat).map (fun x => image[x - start]?)
    = (a.codeOf line).map some
  := by
  have hle : start ≤ e.address.toNat := h.least.2 ⟨line, e, hline, rfl⟩
  apply List.ext_getElem?
  intro i
  rw [List.getElem?_map, List.getElem?_map]
  by_cases hi : i < e.size.toNat
  · obtain ⟨byte, hcode, himage⟩ := h.code hline hi
    have hindex : e.address.toNat + i - start = e.address.toNat - start + i := by omega
    rw [List.getElem?_range' hi, Nat.one_mul, Option.map_some, hindex, himage, hcode,
      Option.map_some]
  · rw [List.getElem?_eq_none (by simpa using hi), List.getElem?_eq_none (by omega)]
    rfl

end Assembly.IsRawImage

namespace Assembly.Emits

variable {a : Assembly} {resolve : SymbolRef → Option UInt64} {codes : List SectionCode}
  {image : List UInt8}

/-- Lines that can be listed one above the other have a raw image. -/
theorem exists_rawImage (h : a.Emits resolve codes) {xs : List (LineId × Address)}
    (hxs : a.storedLines ⊆ xs) (hascending : Ascending xs)
    (hfit : ∀ line e, a.Stores line e → e.address.toNat + e.size.toNat ≤ 0x10000) :
  ∃ image, a.rawImage (segments a.sections) = .ok image
  := by
  rw [h.exists_rawImage_iff]
  use hfit
  intro line line' e e' hne hline hline'
  apply hascending.not_overlaps (hxs (mem_storedLines_iff.mpr hline))
    (hxs (mem_storedLines_iff.mpr hline'))
  intro heq
  apply hne (congrArg Prod.fst heq)

theorem isRawImage (h : a.Emits resolve codes)
    (himage : a.rawImage (segments a.sections) = .ok image) (hne : a.storedLines ≠ []) :
  ∃ stop, a.IsRawImage image a.imageStart stop
  := by
  rw [h.rawImage_eq] at himage
  obtain ⟨start, stop, hof⟩ := exists_isImageOf himage (by simpa using hne)
  have hraw := h.isRawImage_of_isImageOf hof
  use stop
  rw [hraw.imageStart_eq fun line e hline => (h.length_codeOf hline).2]
  apply hraw

/-- An image holds the bytes of the sections at the stored addresses. -/
theorem map_storedAddresses (h : a.Emits resolve codes)
    (himage : a.rawImage (segments a.sections) = .ok image)
    (hascending : Ascending a.storedLines)
    (hfit : ∀ line e, a.Stores line e → e.address.toNat + e.size.toNat ≤ 0x10000) :
  a.storedAddresses.map (fun x => image[x - a.imageStart]?) = a.storedBytes.map some
  := by
  rw [storedAddresses_eq hascending hfit, h.storedBytes_eq, List.map_flatMap, List.map_flatMap]
  apply List.flatMap_congr
  intro x hx
  obtain ⟨stop, hraw⟩ := h.isRawImage himage (List.ne_nil_of_mem hx)
  have hline := mem_storedLines_iff.mp hx
  apply hraw.map_range'_eq hline (h.length_codeOf hline).1

theorem storedLines_ne_nil (h : a.Emits resolve codes)
    (himage : a.rawImage (segments a.sections) = .ok image) (hne : image ≠ []) :
  a.storedLines ≠ []
  := by
  intro hnil
  rw [h.rawImage_eq, hnil] at himage
  cases himage
  apply hne rfl

/-- Where no byte is stored, an image has a zero in the place of a zeroed section. -/
theorem eq_zero_of_notMem (h : a.Emits resolve codes)
    (himage : a.rawImage (segments a.sections) = .ok image) {n : Nat}
    (hstacked : Stacked n a.addressedLines)
    (hle : n + (a.addressedLines.map (·.2.size.toNat)).sum ≤ 65536) {j : Nat}
    (hj : j < image.length) (hmem : a.imageStart + j ∉ a.storedAddresses) :
  image[j]? = some 0
    ∧ ∃ s ∈ a.sections, s.isZeroed ∧ ∃ line ∈ s.lines.map (·.id), ∃ e,
      a.addresses.get? line = some e ∧ e.Covers (a.imageStart + j)
  := by
  have hne := h.storedLines_ne_nil himage (List.ne_nil_of_length_pos (Nat.zero_lt_of_lt hj))
  obtain ⟨stop, hraw⟩ := h.isRawImage himage hne
  -- the image lies within the stack
  have hstart : n ≤ a.imageStart := by
    obtain ⟨line, e, hline, heq⟩ := hraw.least.1
    rw [← heq]
    apply (hstacked.bounds (mem_addressedLines_of_stores hline)).1
  have hstop : stop ≤ n + (a.addressedLines.map (·.2.size.toNat)).sum := by
    obtain ⟨line, e, hline, heq⟩ := hraw.greatest.1
    rw [← heq]
    apply (hstacked.bounds (mem_addressedLines_of_stores hline)).2
  rw [hraw.length_eq] at hj
  have hgap : ∀ line e, a.Stores line e → ¬ e.Covers (a.imageStart + j) := by
    intro line e hline hcovers
    apply hmem
    rw [mem_storedAddresses_iff]
    exact ⟨by omega, line, e, hline, hcovers⟩
  use hraw.gap hj hgap
  have hlt : a.imageStart + j < n + (a.addressedLines.map (·.2.size.toNat)).sum := by omega
  obtain ⟨⟨line, e⟩, hx, hcovers⟩ :=
    hstacked.exists_covers (Nat.le_trans hstart (Nat.le_add_right _ _)) hlt
  rw [addressedLines, LineTable.entriesOf_sectionOrder, List.mem_flatMap] at hx
  obtain ⟨s, hs, hx⟩ := hx
  obtain ⟨hline, he⟩ := LineTable.mem_entriesOf_iff.mp hx
  refine ⟨s, hs, ?_, line, hline, e, he, hcovers⟩
  by_contra hzeroed
  apply hgap line e ⟨he, s, hs, hzeroed, hline⟩ hcovers

end Assembly.Emits

/-! ### Agreement -/

/-- Both forms of the output have the same bytes. -/
structure Assembly.FormatsAgree (a : Assembly) (image : List UInt8) : Prop where
  /-- The object text lists the bytes of the sections. -/
  listed : Text.listedBytes? (a.objectText (segments a.sections)) = some a.storedBytes
  /-- The image has them at the stored addresses, read upward. -/
  stored : a.storedAddresses.map (fun x => image[x - a.imageStart]?) = a.storedBytes.map some
  /-- All else in the image is zero, and in the place of a zeroed section. -/
  zeros : ∀ j < image.length, a.imageStart + j ∉ a.storedAddresses →
    image[j]? = some 0
      ∧ ∃ s ∈ a.sections, s.isZeroed ∧ ∃ line ∈ s.lines.map (·.id), ∃ e,
        a.addresses.get? line = some e ∧ e.Covers (a.imageStart + j)

/-- A program with at most one `.ORG` that does not wrap around has a raw image, and it agrees with
the object text. -/
theorem assemble_formatsAgree {program : Program} {symbols : SymbolTable} {options : Options}
    {a : Assembly} (h : (assemble program symbols options).outcome = .ok a)
    (hone : program.numbered.countP (·.IsOrg) ≤ 1)
    (hfit : ∀ x ∈ a.addressedLines.head?,
      x.2.address.toNat + (a.addresses.toList.map (·.2.size.toNat)).sum ≤ 65536) :
  ∃ image, a.rawImage (segments a.sections) = .ok image ∧ a.FormatsAgree image
  := by
  obtain ⟨codes, hemits⟩ := exists_emits h
  obtain ⟨n, hstacked, hle⟩ := assemble_stacked h hone hfit
  have hstop : ∀ line e, a.Stores line e → e.address.toNat + e.size.toNat ≤ 0x10000 := by
    intro line e hline
    apply Nat.le_trans (hstacked.bounds (Assembly.mem_addressedLines_of_stores hline)).2 hle
  have hascending : Ascending a.storedLines :=
    hstacked.ascending.sublist a.storedLines_sublist
  obtain ⟨image, himage⟩ := hemits.exists_rawImage (List.Subset.refl _) hascending hstop
  use image, himage
  refine {
    listed := ?_
    stored := hemits.map_storedAddresses himage hascending hstop
    zeros := ?_ }
  · rw [Assembly.listedBytes?_objectText, hemits.flatMap_storedByBase _ hstacked.ascending]
    intro s hs x hx
    apply base_eq_of_assemble h hs hx
  · intro j hj hmem
    apply hemits.eq_zero_of_notMem himage hstacked hle hj hmem

/-- Sections before an `.ORG`, one of them zeroed and one without bytes. -/
def Program.folded : Program :=
  [{ kind := .data .byte (.literal (.decimal 1)) },
    { kind := .opening ⟨"empty", { readable := true }⟩ },
    { kind := .opening ⟨"zeros", { writable := true, zeroed := true }⟩ },
    { kind := .block (.literal (.decimal 2)) },
    { kind := .opening ⟨"more", { readable := true }⟩ },
    { kind := .data .byte (.literal (.decimal 2)) },
    { kind := .origin .org (.literal (.hexadecimal 0x0010)) },
    { kind := .data .word (.literal (.hexadecimal 0x0304)) }]

theorem rawImage_folded :
  (assemble .folded { id := 0 } {}).outcome.map
    (fun a => (a.addressedLines.head?, (a.addresses.toList.map (·.2.size.toNat)).sum,
      a.rawImage (segments a.sections)))
    = .ok (some (0, ⟨0x000C, 1⟩), 6, .ok [1, 0, 0, 2, 3, 4])
  := by
  cbv

theorem assemble_formatsAgree_folded :
  ∃ a, (assemble .folded { id := 0 } {}).outcome = .ok a
    ∧ Program.folded.numbered.countP (·.IsOrg) ≤ 1
    ∧ (∀ x ∈ a.addressedLines.head?,
      x.2.address.toNat + (a.addresses.toList.map (·.2.size.toNat)).sum ≤ 65536)
    ∧ a.FormatsAgree [1, 0, 0, 2, 3, 4]
  := by
  obtain ⟨a, ha, heq⟩ := Except.map_eq_ok_iff.mp rawImage_folded
  rw [Prod.mk.injEq, Prod.mk.injEq] at heq
  obtain ⟨hfirst, hsum, himage⟩ := heq
  have hone : Program.folded.numbered.countP (·.IsOrg) ≤ 1 := by decide
  have hfit : ∀ x ∈ a.addressedLines.head?,
      x.2.address.toNat + (a.addresses.toList.map (·.2.size.toNat)).sum ≤ 65536 := by
    rw [hfirst, hsum]
    rintro x ⟨⟩
    decide
  use a, ha, hone, hfit
  obtain ⟨image, himage', hagree⟩ := assemble_formatsAgree ha hone hfit
  obtain rfl := Except.ok.inj (himage.symm.trans himage')
  apply hagree

end Pep10
