import Pep10.Proofs.Encoding
import Pep10.Proofs.LineTable

/-!
# Emission

The code of a section is that of its lines with an address, one after the other.  When the size of
the section is that of these lines, the two checks on it never fail, and only the encoding of a
line can end an emission.
-/

namespace Pep10

/-! ### The code of lines -/

/-- The number of bytes that a line has in an address table. -/
def LineTable.sizeAt (t : LineTable Address) (l : NumberedLine) : Nat :=
  ((t.get? l.id).map (·.size.toNat)).getD 0

/-- Put the code of a line before that of the lines after it. -/
def SectionCode.cons (index start size : Nat) (l : NumberedLine) (code : LineCode)
    (rest : SectionCode) : SectionCode where
  bytes := code.bytes ++ rest.bytes
  relocations := (code.pending?.toList.map fun (offset, width, symbol) =>
    ⟨index, start + offset, width, symbol, l.id⟩) ++ rest.relocations
  spans := (l.id, ⟨index, start, start + size⟩) :: rest.spans

/-- The code of lines of the section `index`, from its byte `start` on. -/
inductive Emitted (addresses : LineTable Address) (resolve : SymbolRef → Option UInt64)
    (index : Nat) : Nat → List NumberedLine → SectionCode → Prop
  | nil {start : Nat} : Emitted addresses resolve index start [] {}
  | skip {start : Nat} {l : NumberedLine} {lines : List NumberedLine} {code : SectionCode}
      (hl : addresses.get? l.id = none)
      (hrest : Emitted addresses resolve index start lines code) :
      Emitted addresses resolve index start (l :: lines) code
  | line {start : Nat} {l : NumberedLine} {lines : List NumberedLine} {e : Address}
      {code : LineCode} {rest : SectionCode} (hl : addresses.get? l.id = some e)
      (hcode : encodeLine resolve l e.size.toNat = .ok code)
      (hrest : Emitted addresses resolve index (start + e.size.toNat) lines rest) :
      Emitted addresses resolve index start (l :: lines)
        (.cons index start e.size.toNat l code rest)

variable {addresses : LineTable Address} {resolve : SymbolRef → Option UInt64} {index start : Nat}
  {lines : List NumberedLine} {code : SectionCode} {s : Section}

theorem emitFrom_cons_eq_ok_iff {l : NumberedLine} {e : Address}
    (hl : addresses.get? l.id = some e) :
  s.emitFrom index addresses resolve start (l :: lines) = .ok code
    ↔ start + e.size.toNat ≤ s.bounds.byteCount
      ∧ ∃ c rest, encodeLine resolve l e.size.toNat = .ok c
        ∧ s.emitFrom index addresses resolve (start + e.size.toNat) lines = .ok rest
        ∧ code = .cons index start e.size.toNat l c rest
  := by
  rw [Section.emitFrom, hl]
  by_cases hroom : s.bounds.byteCount < start + e.size.toNat
  · simp [hroom, bind, Except.bind, throw, throwThe, MonadExceptOf.throw]
  · simp only [hroom, if_false, Except.bind_eq_ok_iff, Nat.not_lt.mp hroom, true_and]
    constructor
    · rintro ⟨c, hc, rest, hrest, ⟨⟩⟩
      exact ⟨c, rest, hc, hrest, rfl⟩
    · rintro ⟨c, rest, hc, hrest, rfl⟩
      exact ⟨c, hc, rest, hrest, rfl⟩

/-- Lines that have room are emitted one after the other. -/
theorem emitFrom_eq_ok_iff
    (hroom : start + (lines.map addresses.sizeAt).sum ≤ s.bounds.byteCount) :
  s.emitFrom index addresses resolve start lines = .ok code
    ↔ Emitted addresses resolve index start lines code
  := by
  induction lines generalizing start code with
  | nil =>
      constructor
      · rintro ⟨⟩
        apply Emitted.nil
      · rintro ⟨⟩
        rfl
  | cons l lines ih =>
      rw [List.map_cons, List.sum_cons, LineTable.sizeAt] at hroom
      cases hl : addresses.get? l.id with
      | none =>
          rw [hl, Option.map_none, Option.getD_none, Nat.zero_add] at hroom
          rw [Section.emitFrom, hl]
          apply (ih hroom).trans
          constructor
          · apply Emitted.skip hl
          · intro h
            cases h with
            | skip _ hrest => apply hrest
            | line hl' _ _ => cases hl.symm.trans hl'
      | some e =>
          rw [hl, Option.map_some, Option.getD_some, ← Nat.add_assoc] at hroom
          rw [emitFrom_cons_eq_ok_iff hl, and_iff_right (by omega)]
          simp only [ih hroom]
          constructor
          · rintro ⟨c, rest, hc, hrest, rfl⟩
            apply Emitted.line hl hc hrest
          · intro h
            cases h with
            | skip hl' _ => cases hl.symm.trans hl'
            | line hl' hc hrest =>
                cases hl.symm.trans hl'
                exact ⟨_, _, hc, hrest, rfl⟩

/-- Lines are emitted when each of them can be encoded. -/
theorem exists_emitted_iff :
  (∃ code, Emitted addresses resolve index start lines code)
    ↔ ∀ l ∈ lines, ∀ e, addresses.get? l.id = some e →
      ∃ code, encodeLine resolve l e.size.toNat = .ok code
  := by
  induction lines generalizing start with
  | nil => simpa using ⟨_, Emitted.nil⟩
  | cons l lines ih =>
      rw [List.forall_mem_cons]
      constructor
      · rintro ⟨code, h⟩
        cases h with
        | skip hl hrest =>
            use fun e he => by cases hl.symm.trans he
            apply ih.mp ⟨_, hrest⟩
        | line hl hc hrest =>
            use fun e he => by
              cases hl.symm.trans he
              exact ⟨_, hc⟩
            apply ih.mp ⟨_, hrest⟩
      · rintro ⟨hl, hlines⟩
        cases he : addresses.get? l.id with
        | none =>
            obtain ⟨code, hrest⟩ := ih.mpr hlines
            exact ⟨code, .skip he hrest⟩
        | some e =>
            obtain ⟨c, hc⟩ := hl e he
            obtain ⟨rest, hrest⟩ := ih.mpr hlines
            exact ⟨_, .line he hc hrest⟩

/-- The entries of lines have the sizes of the lines, and lines without an entry take no bytes. -/
structure Sized (addresses : LineTable Address) (lines : List NumberedLine) : Prop where
  of_some : ∀ l ∈ lines, ∀ e, addresses.get? l.id = some e →
    e.size ≠ 0 ∧ ∃ base, e.size = l.line.size base
  of_none : ∀ l ∈ lines, addresses.get? l.id = none → ∃ base, l.line.size base = 0

theorem Sized.encodeLine_eq_ok_iff (h : Sized addresses lines) {l : NumberedLine} (hl : l ∈ lines)
    {e : Address} (he : addresses.get? l.id = some e) {c : LineCode} :
  encodeLine resolve l e.size.toNat = .ok c
    ↔ Encodes resolve e.size.toNat c.bytes l.line.kind
      ∧ c.pending? = l.line.kind.pending? resolve
  := by
  obtain ⟨hne, base, hbase⟩ := h.of_some l hl e he
  rw [hbase] at hne ⊢
  apply Pep10.encodeLine_eq_ok_iff hne

theorem Sized.length_eq (h : Sized addresses lines) {l : NumberedLine} (hl : l ∈ lines)
    {e : Address} (he : addresses.get? l.id = some e) {bytes : List UInt8}
    (hbytes : Encodes resolve e.size.toNat bytes l.line.kind) :
  bytes.length = e.size.toNat
  := by
  obtain ⟨_, base, hbase⟩ := h.of_some l hl e he
  rw [hbase] at hbytes ⊢
  apply hbytes.length_eq

theorem Sized.tail {l : NumberedLine} (h : Sized addresses (l :: lines)) :
  Sized addresses lines
  where
  of_some l' hl' := h.of_some l' (List.mem_cons_of_mem _ hl')
  of_none l' hl' := h.of_none l' (List.mem_cons_of_mem _ hl')

/-- The spans of lines with an address, which have the sizes of the lines and follow each other
from `start` to `stop`. -/
def Abutting (addresses : LineTable Address) (spans : LineTable Span) (index : Nat) :
    (start : Nat) → List NumberedLine → (stop : Nat) → Prop
  | start, [], stop => start = stop
  | start, l :: lines, stop =>
    match addresses.get? l.id with
    | none => Abutting addresses spans index start lines stop
    | some e =>
      spans.get? l.id = some ⟨index, start, start + e.size.toNat⟩
        ∧ Abutting addresses spans index (start + e.size.toNat) lines stop

/-- The relocation of a line with an address and an operand that has no value. -/
def relocation? (addresses : LineTable Address) (spans : LineTable Span)
    (resolve : SymbolRef → Option UInt64) (index : Nat) (l : NumberedLine) :
    Option Relocation := do
  let _ ← addresses.get? l.id
  let span ← spans.get? l.id
  let (offset, width, symbol) ← l.line.kind.pending? resolve
  return ⟨index, span.start + offset, width, symbol, l.id⟩

namespace Emitted

/-- Only lines with an address have a span. -/
theorem map_fst_spans (h : Emitted addresses resolve index start lines code) :
  code.spans.map (·.1) = (lines.filter (addresses.contains ·.id)).map (·.id)
  := by
  induction h with
  | nil => rfl
  | skip hl _ ih => rw [ih, List.filter_cons_of_neg (by simp [LineTable.contains, hl])]
  | line hl _ _ ih =>
      rw [List.filter_cons_of_pos (by simp [LineTable.contains, hl]), List.map_cons, ← ih]
      rfl

theorem index_eq (h : Emitted addresses resolve index start lines code) :
  ∀ x ∈ code.spans, x.2.index = index
  := by
  induction h with
  | nil => simp
  | skip _ _ ih => apply ih
  | line _ _ _ ih =>
      rw [SectionCode.cons, List.forall_mem_cons]
      use rfl, ih

theorem length_bytes (h : Emitted addresses resolve index start lines code)
    (hsized : Sized addresses lines) :
  code.bytes.length = (lines.map addresses.sizeAt).sum
  := by
  induction h with
  | nil => rfl
  | skip hl _ ih =>
      rw [ih hsized.tail, List.map_cons, List.sum_cons, LineTable.sizeAt, hl, Option.map_none,
        Option.getD_none, Nat.zero_add]
  | line hl hcode _ ih =>
      have hencodes := ((hsized.encodeLine_eq_ok_iff List.mem_cons_self hl).mp hcode).1
      rw [List.map_cons, List.sum_cons, LineTable.sizeAt, hl, Option.map_some, Option.getD_some,
        ← ih hsized.tail, SectionCode.cons, List.length_append,
        hsized.length_eq List.mem_cons_self hl hencodes]

theorem abutting (h : Emitted addresses resolve index start lines code)
    (hsized : Sized addresses lines) {spans : LineTable Span}
    (hspans : ∀ x ∈ code.spans, spans.get? x.1 = some x.2) :
  Abutting addresses spans index start lines (start + code.bytes.length)
  := by
  induction h with
  | nil => rfl
  | skip hl _ ih =>
      rw [Abutting, hl]
      apply ih hsized.tail hspans
  | line hl hcode _ ih =>
      have hencodes := ((hsized.encodeLine_eq_ok_iff List.mem_cons_self hl).mp hcode).1
      rw [SectionCode.cons, List.forall_mem_cons] at hspans
      have hrest := ih hsized.tail hspans.2
      rw [Abutting, hl, SectionCode.cons, List.length_append,
        hsized.length_eq List.mem_cons_self hl hencodes, ← Nat.add_assoc]
      use hspans.1, hrest

/-- The relocations are those of the lines. -/
theorem relocations_eq (h : Emitted addresses resolve index start lines code)
    (hsized : Sized addresses lines) {spans : LineTable Span}
    (hspans : ∀ x ∈ code.spans, spans.get? x.1 = some x.2) :
  code.relocations = lines.filterMap (relocation? addresses spans resolve index)
  := by
  induction h with
  | nil => rfl
  | skip hl _ ih =>
      rw [List.filterMap_cons_none (by simp [relocation?, hl])]
      apply ih hsized.tail hspans
  | @line start l _ e c rest hl hcode _ ih =>
      have hpending := ((hsized.encodeLine_eq_ok_iff List.mem_cons_self hl).mp hcode).2
      rw [SectionCode.cons, List.forall_mem_cons] at hspans
      have hrest := ih hsized.tail hspans.2
      cases hp : l.line.kind.pending? resolve with
      | none =>
          rw [List.filterMap_cons_none (by simp [relocation?, hp]), ← hrest, SectionCode.cons,
            hpending, hp]
          rfl
      | some place =>
          have hsome : relocation? addresses spans resolve index l
              = some ⟨index, start + place.1, place.2.1, place.2.2, l.id⟩ := by
            simp [relocation?, hl, hspans.1, hp]
          rw [List.filterMap_cons_some hsome, ← hrest, SectionCode.cons, hpending, hp]
          rfl

/-- The bytes of a line stand where its span says. -/
theorem slice (h : Emitted addresses resolve index start lines code)
    (hsized : Sized addresses lines) {l : NumberedLine} (hl : l ∈ lines) {e : Address}
    (he : addresses.get? l.id = some e) :
  ∃ before bytes after, code.bytes = before ++ bytes ++ after
    ∧ Encodes resolve e.size.toNat bytes l.line.kind ∧ bytes.length = e.size.toNat
    ∧ (l.id, ⟨index, start + before.length, start + before.length + e.size.toNat⟩) ∈ code.spans
  := by
  induction h with
  | nil => cases hl
  | skip hl' _ ih =>
      apply ih hsized.tail
      apply List.mem_of_ne_of_mem _ hl
      rintro rfl
      cases hl'.symm.trans he
  | @line start l' _ e' c rest hl' hcode _ ih =>
      have hencodes := ((hsized.encodeLine_eq_ok_iff List.mem_cons_self hl').mp hcode).1
      have hlength := hsized.length_eq List.mem_cons_self hl' hencodes
      obtain rfl | hl := List.mem_cons.mp hl
      · obtain rfl := Option.some_inj.mp (hl'.symm.trans he)
        use [], c.bytes, rest.bytes, rfl, hencodes, hlength
        apply List.mem_cons_self
      · obtain ⟨before, bytes, after, hbytes, hencodes', hlength', hspan⟩ := ih hsized.tail hl
        use c.bytes ++ before, bytes, after
        refine ⟨?_, hencodes', hlength', ?_⟩
        · rw [SectionCode.cons, hbytes]
          simp only [List.append_assoc]
        · rw [List.length_append, hlength, ← Nat.add_assoc]
          apply List.mem_cons_of_mem _ hspan

end Emitted

/-! ### The code of sections -/

/-- The code of a section.  One that is zeroed has empty spans and no bytes. -/
def Section.Emits (s : Section) (addresses : LineTable Address)
    (resolve : SymbolRef → Option UInt64) (index : Nat) (code : SectionCode) : Prop :=
  if s.isZeroed then
    code = {
      spans := (s.lines.filter (addresses.contains ·.id)).map fun l => (l.id, ⟨index, 0, 0⟩) }
  else
    Emitted addresses resolve index 0 s.lines code

/-- A section of the size of its lines is emitted. -/
theorem Section.emit_eq_ok_iff (hsized : Sized addresses s.lines)
    (hsize : s.bounds.byteCount = (s.lines.map addresses.sizeAt).sum) :
  s.emit index addresses resolve = .ok code ↔ s.Emits addresses resolve index code
  := by
  by_cases hs : s.isZeroed
  · rw [emit, if_pos hs, Emits, if_pos hs]
    simp [pure, Except.pure, eq_comm]
  · have hroom : 0 + (s.lines.map addresses.sizeAt).sum ≤ s.bounds.byteCount := by omega
    rw [emit, if_neg hs, Emits, if_neg hs, Except.bind_eq_ok_iff]
    simp only [emitFrom_eq_ok_iff hroom]
    constructor
    · rintro ⟨code', hemitted, h⟩
      rw [if_pos (by rw [hsize, hemitted.length_bytes hsized])] at h
      cases h
      apply hemitted
    · intro hemitted
      use code, hemitted
      rw [if_pos (by rw [hsize, hemitted.length_bytes hsized])]
      rfl

theorem Section.Emits.map_fst_spans (h : s.Emits addresses resolve index code) :
  code.spans.map (·.1) = (s.lines.filter (addresses.contains ·.id)).map (·.id)
  := by
  rw [Section.Emits] at h
  split at h
  · rw [h, List.map_map]
    rfl
  · apply Emitted.map_fst_spans h

theorem Section.Emits.index_eq (h : s.Emits addresses resolve index code) :
  ∀ x ∈ code.spans, x.2.index = index
  := by
  rw [Section.Emits] at h
  split at h
  · rw [h]
    intro x hx
    obtain ⟨l, -, rfl⟩ := List.mem_map.mp hx
    rfl
  · apply Emitted.index_eq h

theorem Section.Emits.relocations_eq (h : s.Emits addresses resolve index code)
    (hsized : Sized addresses s.lines) {spans : LineTable Span}
    (hspans : ∀ x ∈ code.spans, spans.get? x.1 = some x.2) :
  code.relocations = if s.isZeroed then []
    else s.lines.filterMap (relocation? addresses spans resolve index)
  := by
  rw [Section.Emits] at h
  split at h
  · next hs => rw [h, if_pos hs]
  · next hs =>
    rw [if_neg hs]
    apply Emitted.relocations_eq h hsized hspans

theorem Except.mapM_eq_ok_iff {ε α β : Type} {f : α → Except ε β} {xs : List α} {ys : List β} :
  xs.mapM f = .ok ys ↔ List.Forall₂ (fun x y => f x = .ok y) xs ys
  := by
  induction xs generalizing ys with
  | nil => simp [pure, Except.pure, eq_comm]
  | cons x xs ih =>
      rw [List.mapM_cons, Except.bind_eq_ok_iff, List.forall₂_cons_left_iff]
      simp only [Except.bind_eq_ok_iff, ih]
      constructor
      · rintro ⟨y, hy, ys, hys, ⟨⟩⟩
        exact ⟨y, ys, hy, hys, rfl⟩
      · rintro ⟨y, ys, hy, hys, rfl⟩
        exact ⟨y, hy, ys, hys, rfl⟩

/-- The code of sections with their positions. -/
abbrev EmitsAll (addresses : LineTable Address) (resolve : SymbolRef → Option UInt64)
    (sections : List (Section × Nat)) (codes : List SectionCode) : Prop :=
  List.Forall₂ (fun x code => x.1.Emits addresses resolve x.2 code) sections codes

/-- Sections of the sizes of their lines are emitted one after the other. -/
theorem emit_eq_ok_iff {sections : List Section} {object : ObjectCode}
    (hsections : ∀ s ∈ sections, Sized addresses s.lines
      ∧ s.bounds.byteCount = (s.lines.map addresses.sizeAt).sum) :
  emit sections addresses resolve = .ok object
    ↔ ∃ codes, EmitsAll addresses resolve sections.zipIdx codes
      ∧ object = {
        buffers := codes.map (·.bytes)
        relocations := codes.flatMap (·.relocations)
        spans := .ofInserts (codes.flatMap (·.spans)) }
  := by
  have hemit : ∀ codes,
      List.Forall₂ (fun x code => x.1.emit x.2 addresses resolve = .ok code) sections.zipIdx codes
        ↔ EmitsAll addresses resolve sections.zipIdx codes := by
    intro codes
    have hpair : ∀ x code, (x, code) ∈ sections.zipIdx.zip codes →
        (x.1.emit x.2 addresses resolve = .ok code
          ↔ x.1.Emits addresses resolve x.2 code) := by
      intro x code hmem
      obtain ⟨hsized, hsize⟩ :=
        hsections x.1 (List.fst_mem_of_mem_zipIdx (List.of_mem_zip hmem).1)
      apply Section.emit_eq_ok_iff hsized hsize
    rw [EmitsAll, List.forall₂_iff_zip, List.forall₂_iff_zip]
    constructor
    · rintro ⟨hlength, hemit⟩
      use hlength, fun hmem => (hpair _ _ hmem).mp (hemit hmem)
    · rintro ⟨hlength, hemits⟩
      use hlength, fun hmem => (hpair _ _ hmem).mpr (hemits hmem)
  rw [emit, Except.bind_eq_ok_iff]
  simp only [Except.mapM_eq_ok_iff, hemit]
  constructor
  · rintro ⟨codes, hcodes, ⟨⟩⟩
    exact ⟨codes, hcodes, rfl⟩
  · rintro ⟨codes, hcodes, rfl⟩
    exact ⟨codes, hcodes, rfl⟩

namespace EmitsAll

variable {sections : List (Section × Nat)} {codes : List SectionCode}

theorem map_fst_spans (h : EmitsAll addresses resolve sections codes) :
  (codes.flatMap (·.spans)).map (·.1)
    = ((sections.flatMap (·.1.lines)).filter (addresses.contains ·.id)).map (·.id)
  := by
  induction h with
  | nil => rfl
  | cons hx _ ih =>
      rw [List.flatMap_cons, List.map_append, ih, hx.map_fst_spans, List.flatMap_cons,
        List.filter_append, List.map_append]

theorem relocations_eq (h : EmitsAll addresses resolve sections codes)
    (hsized : ∀ x ∈ sections, Sized addresses x.1.lines) {spans : LineTable Span}
    (hspans : ∀ x ∈ codes.flatMap (·.spans), spans.get? x.1 = some x.2) :
  codes.flatMap (·.relocations) = sections.flatMap fun (s, index) =>
    if s.isZeroed then []
    else s.lines.filterMap (relocation? addresses spans resolve index)
  := by
  induction h with
  | nil => rfl
  | cons hx _ ih =>
      rw [List.forall_mem_cons] at hsized
      rw [List.flatMap_cons, List.forall_mem_append] at hspans
      rw [List.flatMap_cons, List.flatMap_cons, ih hsized.2 hspans.2,
        hx.relocations_eq hsized.1 hspans.1]

theorem exists_getElem? (h : EmitsAll addresses resolve sections codes) {i : Nat} {s : Section}
    (hs : sections[i]? = some (s, index)) :
  ∃ code, codes[i]? = some code ∧ s.Emits addresses resolve index code
  := by
  induction h generalizing i with
  | nil => cases hs
  | @cons x code _ codes hx _ ih =>
      cases i with
      | zero =>
          cases hs
          use code, rfl, hx
      | succ i => apply ih hs

end EmitsAll

end Pep10
