import Pep10.Proofs.Emission

/-!
# Patching

What becomes of object code when a symbol gets a value that it did not have.  The operands that
wait for it are written with the digits of the value, in the very places where zeros stood for
them, and their relocations are gone.  Every other byte, every span and every other relocation is
as it was.
-/

namespace Pep10

/-! ### Bytes that are patched -/

/-- Does a relocation wait for the byte at a position of a section? -/
def Relocation.Covers (r : Relocation) (index position : Nat) : Prop :=
  r.index = index ∧ r.offset ≤ position ∧ position < r.offset + r.width.toNat

/-- The bytes of a section from the position `start` on, before and after relocations have been
filled in with the digits of a value. -/
structure PatchedFrom (v : UInt64) (index start : Nat) (rs : List Relocation)
    (bytes bytes' : List UInt8) : Prop where
  length_eq : bytes'.length = bytes.length
  inside : ∀ r ∈ rs, r.index = index ∧ start ≤ r.offset
    ∧ r.offset + r.width.toNat ≤ start + bytes.length
  filled : ∀ r ∈ rs, Digits r.width.toNat v ((bytes'.drop (r.offset - start)).take r.width.toNat)
  unchanged : ∀ j, (∀ r ∈ rs, ¬ r.Covers index (start + j)) → bytes'[j]? = bytes[j]?

namespace PatchedFrom

variable {v : UInt64} {index start : Nat} {rs rs' : List Relocation}
  {bytes bytes' rest rest' : List UInt8}

theorem refl (v : UInt64) (index start : Nat) (bytes : List UInt8) :
  PatchedFrom v index start [] bytes bytes
  where
  length_eq := rfl
  inside := by simp
  filled := by simp
  unchanged _ _ := rfl

/-- Patching goes on after some bytes. -/
theorem append (h : PatchedFrom v index start rs bytes bytes')
    (hrest : PatchedFrom v index (start + bytes.length) rs' rest rest') :
  PatchedFrom v index start (rs ++ rs') (bytes ++ rest) (bytes' ++ rest')
  := by
  constructor
  · rw [List.length_append, List.length_append, h.length_eq, hrest.length_eq]
  · rw [List.forall_mem_append, List.length_append]
    constructor
    · intro r hr
      obtain ⟨hindex, hstart, hstop⟩ := h.inside r hr
      use hindex, hstart
      omega
    · intro r hr
      obtain ⟨hindex, hstart, hstop⟩ := hrest.inside r hr
      use hindex
      omega
  · rw [List.forall_mem_append]
    constructor
    · intro r hr
      obtain ⟨-, hstart, hstop⟩ := h.inside r hr
      have hlength := h.length_eq
      rw [List.drop_append_of_le_length (by omega),
        List.take_append_of_le_length (by rw [List.length_drop]; omega)]
      apply h.filled r hr
    · intro r hr
      obtain ⟨-, hstart, hstop⟩ := hrest.inside r hr
      have hoffset : r.offset - start = bytes'.length + (r.offset - (start + bytes.length)) := by
        have hlength := h.length_eq
        omega
      rw [hoffset, List.drop_length_add_append]
      apply hrest.filled r hr
  · intro j hj
    rw [List.forall_mem_append] at hj
    by_cases hlt : j < bytes.length
    · rw [List.getElem?_append_left hlt, List.getElem?_append_left (h.length_eq ▸ hlt)]
      apply h.unchanged j hj.1
    · have hle : bytes.length ≤ j := Nat.le_of_not_lt hlt
      rw [List.getElem?_append_right hle, List.getElem?_append_right (h.length_eq ▸ hle),
        h.length_eq]
      apply hrest.unchanged
      rw [Nat.add_assoc, Nat.add_sub_cancel' hle]
      apply hj.2

/-- Digits in the place of as many bytes. -/
theorem site {pre old digits : List UInt8} {r : Relocation} (hindex : r.index = index)
    (hoffset : r.offset = start + pre.length) (hold : old.length = r.width.toNat)
    (hdigits : Digits r.width.toNat v digits) :
  PatchedFrom v index start [r] (pre ++ old) (pre ++ digits)
  := by
  have hlength := hdigits.length_eq
  constructor
  · rw [List.length_append, List.length_append, hold, hlength]
  · rw [List.forall_mem_singleton, List.length_append, hold]
    use hindex
    omega
  · rw [List.forall_mem_singleton, hoffset, Nat.add_sub_cancel_left, List.drop_left', ← hlength,
      List.take_length, hlength]
    · apply hdigits
    · rfl
  · intro j hj
    rw [List.forall_mem_singleton] at hj
    by_cases hlt : j < pre.length
    · rw [List.getElem?_append_left hlt, List.getElem?_append_left hlt]
    · have hle : r.width.toNat ≤ j - pre.length := by
        by_contra hnot
        apply hj
        use hindex
        omega
      rw [List.getElem?_append_right (by omega), List.getElem?_append_right (by omega),
        List.getElem?_eq_none (by omega), List.getElem?_eq_none (by omega)]

end PatchedFrom

/-! ### Resolutions of which one knows more -/

/-- The second resolution gives the value `v` to some symbols that have none in the first, and is
the same otherwise. -/
structure Gains (v : UInt64) (hit : SymbolRef → Bool)
    (resolve resolve' : SymbolRef → Option UInt64) : Prop where
  before : ∀ r, hit r → resolve r = none
  after : ∀ r, hit r → resolve' r = some v
  others : ∀ r, ¬ hit r → resolve' r = resolve r

/-- The symbol in the operand that a line writes in its bytes. -/
def Line.reference? (l : Line) : Option SymbolRef :=
  l.kind.operand?.bind fun (_, _, a) => a.symbol?

section

variable {resolve resolve' : SymbolRef → Option UInt64}

theorem encodeOperand_congr {a : Argument} (h : ∀ r ∈ a.symbol?, resolve' r = resolve r)
    (line : LineId) (width : UInt8) :
  encodeOperand resolve' line width a = encodeOperand resolve line width a
  := by
  cases a with
  | literal l => rfl
  | symbolic name r => rw [encodeOperand, encodeOperand, h r rfl]

/-- The code of a line depends on the value of the symbol in its operand only. -/
theorem encodeLine_congr {l : NumberedLine} (h : ∀ r ∈ l.line.reference?, resolve' r = resolve r)
    (size : Nat) :
  encodeLine resolve' l size = encodeLine resolve l size
  := by
  obtain ⟨id, kind, symbol?, comment?⟩ := l
  cases kind with
  | dyadic m mode a => simp only [encodeLine, encodeOperand_congr h]
  | data kind a =>
      cases kind with
      | ascii => rfl
      | byte => simp only [encodeLine, encodeOperand_congr h]
      | word => simp only [encodeLine, encodeOperand_congr h]
  | _ => rfl

/-- An operand that gets a value is written where zeros stood for it. -/
theorem Encodes.exists_patched {kind : LineKind} {offset size : Nat} {width : UInt8}
    {name : String} {r : SymbolRef} {v : UInt64} {bytes : List UInt8}
    (hoperand : kind.operand? = some (offset, width, .symbolic name r))
    (hr' : resolve' r = some v) (hv : v.toNat < capacity width.toNat)
    (h : Encodes resolve size bytes kind) :
  ∃ pre old digits, bytes = pre ++ old ∧ pre.length = offset ∧ old.length = width.toNat
    ∧ Digits width.toNat v digits ∧ Encodes resolve' size (pre ++ digits) kind
  := by
  have hvalue : ∀ width, (Argument.symbolic name r).HasValue resolve' width v :=
    fun _ => .resolved hr'
  have hdigits := (digits_iff (LineKind.width_le hoperand)).mpr ⟨hv, rfl⟩
  obtain ⟨m, mode, rfl, rfl, rfl⟩ | ⟨rfl, rfl, rfl⟩ | ⟨rfl, rfl, rfl⟩ :=
    LineKind.operand?_cases hoperand
  · obtain ⟨op, _, old, hop, -, hold, rfl⟩ := h
    refine ⟨[op], old, _, rfl, rfl, hold.length_eq, hdigits, ?_⟩
    exact ⟨op, v, _, hop, hvalue 2, hdigits, rfl⟩
  · obtain ⟨_, -, hold⟩ := h
    exact ⟨[], bytes, _, rfl, rfl, hold.length_eq, hdigits, v, hvalue 1, hdigits⟩
  · obtain ⟨_, -, hold⟩ := h
    exact ⟨[], bytes, _, rfl, rfl, hold.length_eq, hdigits, v, hvalue 2, hdigits⟩

end

/-! ### Code that is patched -/

/-- The code of a section from the position `start` on, before and after the relocations that are
dropped have been filled in. -/
structure PatchedCode (v : UInt64) (dropped : Relocation → Bool) (index start : Nat)
    (code code' : SectionCode) : Prop where
  spans_eq : code'.spans = code.spans
  relocations_eq : code'.relocations = code.relocations.filter (¬ dropped ·)
  bytes : PatchedFrom v index start (code.relocations.filter (dropped ·)) code.bytes code'.bytes

/-- The relocation of a line that starts at a position of a section. -/
def LineCode.relocations (c : LineCode) (index start : Nat) (l : NumberedLine) : List Relocation :=
  c.pending?.toList.map fun (offset, width, symbol) => ⟨index, start + offset, width, symbol, l.id⟩

section

variable {addresses : LineTable Address} {resolve resolve' : SymbolRef → Option UInt64}
  {v : UInt64} {hit : SymbolRef → Bool} {dropped : Relocation → Bool} {index start : Nat}
  {lines : List NumberedLine} {l : NumberedLine}

theorem line_eq_of_mem_relocations {c : LineCode} {r : Relocation}
    (h : r ∈ c.relocations index start l) :
  r.line = l.id
  := by
  obtain ⟨_, _, rfl⟩ := List.mem_map.mp h
  rfl

/-- What becomes of the code of a line. -/
theorem Sized.exists_patched_line (hsized : Sized addresses lines) (hl : l ∈ lines) {e : Address}
    (he : addresses.get? l.id = some e) (hgains : Gains v hit resolve resolve')
    (hdropped : ∀ r : Relocation, r.line = l.id → dropped r = l.line.reference?.any hit)
    {c : LineCode} (hc : encodeLine resolve l e.size.toNat = .ok c)
    (hfits : ∀ r ∈ c.relocations index start l, dropped r → v.toNat < capacity r.width.toNat) :
  ∃ c', encodeLine resolve' l e.size.toNat = .ok c'
    ∧ c'.relocations index start l = (c.relocations index start l).filter (¬ dropped ·)
    ∧ PatchedFrom v index start ((c.relocations index start l).filter (dropped ·)) c.bytes c'.bytes
  := by
  by_cases hany : ∃ r, l.line.reference? = some r ∧ hit r
  · -- the operand is a symbol that had no value, so the line has a relocation
    obtain ⟨r, hr, hhit⟩ := hany
    obtain ⟨⟨offset, width, a⟩, hoperand, ha⟩ := Option.bind_eq_some_iff.mp hr
    cases a with
    | literal => cases ha
    | symbolic name r' =>
        cases ha
        obtain ⟨hencodes, hpending⟩ := (hsized.encodeLine_eq_ok_iff hl he).mp hc
        have hrelocations :
            c.relocations index start l = [⟨index, start + offset, width, name, l.id⟩] := by
          rw [LineCode.relocations, hpending]
          simp [LineKind.pending?, hoperand, Argument.pending?, hgains.before r hhit]
        have hdrop : dropped ⟨index, start + offset, width, name, l.id⟩ := by
          rw [hdropped _ rfl, hr, Option.any_some, hhit]
        have hv := hfits _ (by rw [hrelocations]; apply List.mem_singleton_self) hdrop
        obtain ⟨pre, old, digits, hbytes, hpre, hold, hdigits, hencodes'⟩ :=
          hencodes.exists_patched hoperand (hgains.after r hhit) hv
        use { bytes := pre ++ digits }
        rw [hsized.encodeLine_eq_ok_iff hl he, hrelocations, List.filter_cons_of_neg (by simpa),
          List.filter_cons_of_pos (by simpa), hbytes]
        refine ⟨⟨hencodes', ?_⟩, rfl, ?_⟩
        · simp [LineKind.pending?, hoperand, Argument.pending?, hgains.after r hhit]
        · apply PatchedFrom.site
          · rfl
          · rw [hpre]
          · apply hold
          · apply hdigits
  · have hkept : ∀ r ∈ c.relocations index start l, dropped r = false := by
      intro r hr
      rw [hdropped r (line_eq_of_mem_relocations hr)]
      cases href : l.line.reference? with
      | none => rfl
      | some r => simpa [href] using hany
    have hsame : ∀ r ∈ l.line.reference?, resolve' r = resolve r := by
      intro r hr
      apply hgains.others
      intro hhit
      apply hany ⟨r, hr, hhit⟩
    use c
    rw [encodeLine_congr hsame, List.filter_eq_self.mpr (by simpa using hkept),
      List.filter_eq_nil_iff.mpr (by simpa using hkept)]
    exact ⟨hc, rfl, .refl v index start c.bytes⟩

/-- What becomes of the code of lines, one after the other. -/
theorem Emitted.exists_patched {code : SectionCode}
    (h : Emitted addresses resolve index start lines code) (hsized : Sized addresses lines)
    (hgains : Gains v hit resolve resolve')
    (hdropped : ∀ l ∈ lines, ∀ r : Relocation, r.line = l.id →
      dropped r = l.line.reference?.any hit)
    (hfits : ∀ r ∈ code.relocations, dropped r → v.toNat < capacity r.width.toNat) :
  ∃ code', Emitted addresses resolve' index start lines code'
    ∧ PatchedCode v dropped index start code code'
  := by
  induction h with
  | @nil start => exact ⟨{}, .nil, rfl, rfl, .refl v index start []⟩
  | skip hl _ ih =>
      rw [List.forall_mem_cons] at hdropped
      obtain ⟨code', hcode', hpatched⟩ := ih hsized.tail hdropped.2 hfits
      exact ⟨code', .skip hl hcode', hpatched⟩
  | @line start l lines e c rest hl hc _ ih =>
      rw [List.forall_mem_cons] at hdropped
      obtain ⟨hfits, hfits'⟩ := List.forall_mem_append.mp hfits
      obtain ⟨c', hc', hrelocations, hbytes⟩ :=
        hsized.exists_patched_line List.mem_cons_self hl hgains hdropped.1 hc hfits
      obtain ⟨rest', hrest', hpatched⟩ := ih hsized.tail hdropped.2 hfits'
      have hencodes := ((hsized.encodeLine_eq_ok_iff List.mem_cons_self hl).mp hc).1
      have hlength := hsized.length_eq List.mem_cons_self hl hencodes
      refine ⟨_, .line hl hc' hrest', ?_, ?_, ?_⟩
      · rw [SectionCode.cons, hpatched.spans_eq]
        rfl
      · have hfilter := List.filter_append (p := (¬ dropped ·)) (c.relocations index start l)
          rest.relocations
        rw [← hrelocations, ← hpatched.relocations_eq] at hfilter
        apply hfilter.symm
      · have hrest := hpatched.bytes
        rw [← hlength] at hrest
        have happend := hbytes.append hrest
        rw [← List.filter_append] at happend
        apply happend

/-- What becomes of the code of a section. -/
theorem Section.Emits.exists_patched {s : Section} {code : SectionCode}
    (h : s.Emits addresses resolve index code) (hsized : Sized addresses s.lines)
    (hgains : Gains v hit resolve resolve')
    (hdropped : ∀ l ∈ s.lines, ∀ r : Relocation, r.line = l.id →
      dropped r = l.line.reference?.any hit)
    (hfits : ∀ r ∈ code.relocations, dropped r → v.toNat < capacity r.width.toNat) :
  ∃ code', s.Emits addresses resolve' index code' ∧ PatchedCode v dropped index 0 code code'
  := by
  rw [Section.Emits] at h
  simp only [Section.Emits]
  split at h
  · next hs =>
    simp only [if_pos hs, exists_eq_left, h]
    exact ⟨rfl, rfl, .refl v index 0 []⟩
  · next hs =>
    simp only [if_neg hs]
    apply Emitted.exists_patched h hsized hgains hdropped hfits

end

/-! ### Buffers that are patched -/

/-- The buffers of all sections, before and after relocations have been filled in with the digits
of a value. -/
structure Patched (v : UInt64) (rs : List Relocation) (buffers buffers' : List (List UInt8)) :
    Prop where
  length_eq : buffers'.map List.length = buffers.map List.length
  /-- A relocation holds the digits of the value. -/
  filled : ∀ r ∈ rs, ∃ buffer, buffers'[r.index]? = some buffer
    ∧ Digits r.width.toNat v ((buffer.drop r.offset).take r.width.toNat)
  /-- The bytes that no relocation waits for are as they were. -/
  unchanged : ∀ {i j : Nat}, (∀ r ∈ rs, ¬ r.Covers i j) →
    buffers'[i]?.bind (·[j]?) = buffers[i]?.bind (·[j]?)

section

variable {addresses : LineTable Address} {resolve resolve' : SymbolRef → Option UInt64}
  {v : UInt64} {hit : SymbolRef → Bool} {dropped : Relocation → Bool}

/-- The codes of sections from the position `n` on, before and after. -/
inductive PatchedAll (v : UInt64) (dropped : Relocation → Bool) :
    Nat → List SectionCode → List SectionCode → Prop
  | nil {n : Nat} : PatchedAll v dropped n [] []
  | cons {n : Nat} {code code' : SectionCode} {codes codes' : List SectionCode}
      (hcode : PatchedCode v dropped n 0 code code')
      (hcodes : PatchedAll v dropped (n + 1) codes codes') :
      PatchedAll v dropped n (code :: codes) (code' :: codes')

/-- What becomes of the code of all sections. -/
theorem EmitsAll.exists_patched {sections : List Section} {n : Nat} {codes : List SectionCode}
    (h : EmitsAll addresses resolve (sections.zipIdx n) codes)
    (hsized : ∀ s ∈ sections, Sized addresses s.lines)
    (hgains : Gains v hit resolve resolve')
    (hdropped : ∀ l ∈ sections.flatMap (·.lines), ∀ r : Relocation, r.line = l.id →
      dropped r = l.line.reference?.any hit)
    (hfits : ∀ r ∈ codes.flatMap (·.relocations), dropped r →
      v.toNat < capacity r.width.toNat) :
  ∃ codes', EmitsAll addresses resolve' (sections.zipIdx n) codes'
    ∧ PatchedAll v dropped n codes codes'
  := by
  induction sections generalizing n codes with
  | nil =>
      cases h
      exact ⟨[], .nil, .nil⟩
  | cons s sections ih =>
      rw [List.zipIdx_cons] at h ⊢
      obtain ⟨code, codes, hcode, hcodes, rfl⟩ := List.forall₂_cons_left_iff.mp h
      rw [List.forall_mem_cons] at hsized
      rw [List.flatMap_cons, List.forall_mem_append] at hdropped hfits
      obtain ⟨code', hcode', hpatched⟩ :=
        hcode.exists_patched hsized.1 hgains hdropped.1 hfits.1
      obtain ⟨codes', hcodes', hpatched'⟩ := ih hcodes hsized.2 hdropped.2 hfits.2
      exact ⟨code' :: codes', .cons hcode' hcodes', .cons hpatched hpatched'⟩

namespace PatchedAll

variable {n : Nat} {codes codes' : List SectionCode}

theorem spans_eq (h : PatchedAll v dropped n codes codes') :
  codes'.flatMap (·.spans) = codes.flatMap (·.spans)
  := by
  induction h with
  | nil => rfl
  | cons hcode _ ih => rw [List.flatMap_cons, List.flatMap_cons, ih, hcode.spans_eq]

theorem relocations_eq (h : PatchedAll v dropped n codes codes') :
  codes'.flatMap (·.relocations) = (codes.flatMap (·.relocations)).filter (¬ dropped ·)
  := by
  induction h with
  | nil => rfl
  | cons hcode _ ih =>
      rw [List.flatMap_cons, List.flatMap_cons, List.filter_append, ih, hcode.relocations_eq]

theorem length_bytes (h : PatchedAll v dropped n codes codes') :
  (codes'.map (·.bytes)).map List.length = (codes.map (·.bytes)).map List.length
  := by
  induction h with
  | nil => rfl
  | cons hcode _ ih => simp only [List.map_cons, ih, hcode.bytes.length_eq]

theorem exists_getElem? (h : PatchedAll v dropped n codes codes') {i : Nat} {code : SectionCode}
    (hcode : codes[i]? = some code) :
  ∃ code', codes'[i]? = some code' ∧ PatchedCode v dropped (n + i) 0 code code'
  := by
  induction h generalizing i with
  | nil => cases hcode
  | @cons n first first' _ _ hfirst _ ih =>
      cases i with
      | zero =>
          cases hcode
          exact ⟨first', rfl, hfirst⟩
      | succ i =>
          obtain ⟨code', hcode', hpatched⟩ := ih hcode
          rw [Nat.add_right_comm] at hpatched
          exact ⟨code', hcode', hpatched⟩

/-- The buffers of patched codes are patched. -/
theorem patched (h : PatchedAll v dropped 0 codes codes') :
  Patched v ((codes.flatMap (·.relocations)).filter (dropped ·)) (codes.map (·.bytes))
    (codes'.map (·.bytes))
  := by
  constructor
  · apply h.length_bytes
  · intro r hr
    obtain ⟨hr, hdropped⟩ := List.mem_filter.mp hr
    obtain ⟨code, hcode, hr⟩ := List.mem_flatMap.mp hr
    obtain ⟨i, hi⟩ := List.mem_iff_getElem?.mp hcode
    obtain ⟨code', hi', hpatched⟩ := h.exists_getElem? hi
    have hmem := List.mem_filter.mpr ⟨hr, hdropped⟩
    obtain ⟨hindex, -⟩ := hpatched.bytes.inside r hmem
    use code'.bytes
    rw [hindex, Nat.zero_add, List.getElem?_map, hi']
    use rfl
    apply hpatched.bytes.filled r hmem
  · intro i j hj
    rw [List.getElem?_map, List.getElem?_map]
    cases hi : codes[i]? with
    | none =>
        have hlength := congrArg List.length h.length_bytes
        simp only [List.length_map] at hlength
        rw [List.getElem?_eq_none_iff, ← hlength, ← List.getElem?_eq_none_iff] at hi
        rw [hi]
    | some code =>
        obtain ⟨code', hi', hpatched⟩ := h.exists_getElem? hi
        rw [hi']
        apply hpatched.bytes.unchanged j
        intro r hr
        rw [Nat.zero_add, Nat.zero_add]
        obtain ⟨hr, hdropped⟩ := List.mem_filter.mp hr
        apply hj r (List.mem_filter.mpr ⟨_, hdropped⟩)
        apply List.mem_flatMap.mpr ⟨code, List.mem_of_getElem? hi, hr⟩

end PatchedAll

end

end Pep10
