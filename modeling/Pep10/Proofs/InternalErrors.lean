import Pep10.Proofs.Acceptance
import Pep10.Proofs.Partition

/-!
# Internal errors

The stages of an assembly check what they are given by the stages before them.  A label has to be
in the symbol table, a schedule has to have every section once, the lines of a section have to fill
it, and only lines that can take bytes may have an address.  For a program that comes from a
document all of this holds.  What is left is the size of a text, which is cut off at 65535 where
its bytes are not.
-/

namespace Pep10

/-! ### Where errors come from -/

namespace Except

variable {ε α β : Type} {e : ε}

theorem exists_of_mapM_eq_error {f : α → Except ε β} {xs : List α} (h : xs.mapM f = .error e) :
  ∃ x ∈ xs, f x = .error e
  := by
  induction xs with
  | nil => cases h
  | cons x xs ih =>
      rw [List.mapM_cons] at h
      obtain h | ⟨y, -, h⟩ := bind_eq_error_iff.mp h
      · use x, List.mem_cons_self
      · obtain h | ⟨ys, -, h⟩ := bind_eq_error_iff.mp h
        · obtain ⟨x', hx', h⟩ := ih h
          use x', List.mem_cons_of_mem _ hx'
        · cases h

end Except

/-! ### Laying out -/

theorem originValue_eq_error {line : LineId} {a : Argument} {e : AssemblyError}
    (h : originValue line a = .error e) :
  ∃ fault, e = .unsupportedArgument line fault
  := by
  cases a with
  | symbolic name r =>
      cases h
      exact ⟨_, rfl⟩
  | literal literal =>
      rw [originValue] at h
      split at h
      · cases h
      · cases h
        exact ⟨_, rfl⟩

theorem equateValue_eq_error {owner : TableId} {line : LineId} {a : Argument} {e : AssemblyError}
    (h : equateValue owner line a = .error e) :
  ∃ fault, e = .unsupportedArgument line fault
  := by
  cases a with
  | symbolic name r => cases h
  | literal literal =>
      rw [equateValue] at h
      split at h
      · cases h
      · cases h
        exact ⟨_, rfl⟩

/-- A line that cannot be placed has an unusable operand. -/
theorem Pass.place_eq_error {pass : Pass} {base : UInt16} {l : NumberedLine} {e : AssemblyError}
    (h : pass.place base l = .error e) :
  ∃ fault, e = .unsupportedArgument l.id fault
  := by
  rw [Pass.place] at h
  split at h
  · obtain h | ⟨_, _, h⟩ := Except.bind_eq_error_iff.mp h
    · apply originValue_eq_error h
    · cases h
  · obtain h | ⟨_, _, h⟩ := Except.bind_eq_error_iff.mp h
    · rw [Pass.equate] at h
      split at h
      · cases h
      · obtain h | ⟨_, _, h⟩ := Except.bind_eq_error_iff.mp h
        · apply equateValue_eq_error h
        · cases h
    · cases h
  · split at h
    · cases h
    · cases h

section

variable {sections : List Section} {base : UInt16}

theorem anchor_eq_error {e : AssemblyError} (h : anchor sections base = .error e) :
  ∃ line fault, e = .unsupportedArgument line fault
  := by
  rw [anchor] at h
  split at h
  · obtain h | ⟨_, _, h⟩ := Except.bind_eq_error_iff.mp h
    · exact ⟨_, originValue_eq_error h⟩
    · cases h
  · split at h
    · obtain h | ⟨_, _, h⟩ := Except.bind_eq_error_iff.mp h
      · exact ⟨_, originValue_eq_error h⟩
      · cases h
    · cases h

/-- A schedule has every section once. -/
theorem index_schedule_perm (hne : sections ≠ []) {steps : List Step}
    (h : schedule sections base = .ok steps) :
  (steps.map (·.index)).Perm (List.range sections.length)
  := by
  rw [schedule_eq hne] at h
  obtain ⟨a, ha, rfl⟩ := Except.map_eq_ok_iff.mp h
  apply Anchor.index_steps_perm (anchor_index_lt hne ha)

/-- A layout fails because of unusable operands only. -/
theorem unsupportedArgument_of_assign {owner : TableId} (hne : sections ≠ []) {e : AssemblyError}
    (h : (assign owner sections base).outcome = .error e) :
  ∃ line fault, e = .unsupportedArgument line fault
  := by
  obtain h | ⟨pass, base, l, h⟩ := assign_eq_error h
  · rw [schedule_eq hne] at h
    cases ha : anchor sections base with
    | error e' =>
        rw [ha] at h
        cases h
        apply anchor_eq_error ha
    | ok a =>
        rw [ha] at h
        cases h
  · exact ⟨l.id, Pass.place_eq_error h⟩

end

/-! ### Emitting -/

section

variable {resolve : SymbolRef → Option UInt64} {line : LineId} {line? : Option LineId}
  {cause : Inconsistency}

/-- Everything that encoding an operand can do. -/
theorem encodeOperand_cases (resolve : SymbolRef → Option UInt64) (line : LineId) (width : UInt8)
    (a : Argument) :
  (∃ bytes, encodeOperand resolve line width a = .ok (.bytes bytes)
      ∧ bytes.length = width.toNat)
    ∨ (∃ name, encodeOperand resolve line width a = .ok (.unresolved name))
    ∨ ∃ fault, encodeOperand resolve line width a = .error (.unsupportedArgument line fault)
  := by
  cases a with
  | literal literal =>
      rw [encodeOperand]
      split
      · exact .inl ⟨_, rfl, length_toBigEndian _ _⟩
      · exact .inr (.inr ⟨_, rfl⟩)
  | symbolic name r =>
      rw [encodeOperand]
      split
      · exact .inr (.inl ⟨_, rfl⟩)
      · split
        · exact .inl ⟨_, rfl, length_toBigEndian _ _⟩
        · exact .inr (.inr ⟨_, rfl⟩)

/-- An operand has the room for its bytes. -/
theorem encodeOperand_bind_placeOperand_ne_inconsistent (offset : Nat) (width : UInt8)
    (a : Argument) :
  encodeOperand resolve line width a >>= placeOperand line offset width.toNat width
    ≠ .error (.inconsistent line? cause)
  := by
  intro h
  obtain ⟨bytes, hencode, hlength⟩ | ⟨name, hencode⟩ | ⟨fault, hencode⟩ :=
    encodeOperand_cases resolve line width a
  · have hfill : fill line width.toNat bytes = .ok _ := if_pos hlength.le
    have hplace : placeOperand line offset width.toNat width (.bytes bytes) = .ok _ :=
      Except.bind_eq_ok_iff.mpr ⟨_, hfill, rfl⟩
    rw [hencode] at h
    cases hplace.symm.trans h
  · rw [hencode] at h
    cases h
  · rw [hencode] at h
    cases h

theorem lineOpcode_eq_error {m : Mnemonic} {mode : Option AddressingMode} {e : AssemblyError}
    (h : lineOpcode line m mode = .error e) :
  ∃ cause, e = .invalidInstruction line cause
  := by
  rw [lineOpcode] at h
  split at h
  · cases h
  · cases h
    exact ⟨_, rfl⟩

/-- A text does not fit in its line when it is too long. -/
theorem fill_text_eq_error_iff {text : List UInt8} {e : AssemblyError} :
  fill line (UInt16.ofNat (min 65535 text.length)).toNat text = .error e
    ↔ 65535 < text.length ∧ e = .inconsistent (some line) (.overfull text.length 65535)
  := by
  rw [toNat_ofNat_min, fill]
  by_cases h : 65535 < text.length
  · rw [if_neg (by omega), min_eq_left h.le]
    simp [h, eq_comm]
  · rw [if_pos (by omega)]
    simp [h]

/-- The bytes of a line fit in it, unless they are those of a text that is too long. -/
theorem encodeLine_eq_inconsistent_iff {l : NumberedLine} {base : UInt16}
    (hsize : l.line.size base ≠ 0) :
  encodeLine resolve l (l.line.size base).toNat = .error (.inconsistent line? cause)
    ↔ ∃ text, l.line.kind = .data .ascii (.literal (.text text)) ∧ 65535 < text.length
      ∧ line? = some l.id ∧ cause = .overfull text.length 65535
  := by
  obtain ⟨id, kind, symbol?, comment?⟩ := l
  have hother : ∀ {p : Prop}, ¬ p → (∀ a, kind ≠ .data .ascii a) →
      (p ↔ ∃ text, kind = .data .ascii (.literal (.text text)) ∧ 65535 < text.length
        ∧ line? = some id ∧ cause = .overfull text.length 65535) := by
    intro p hp hkind
    apply iff_of_false hp
    rintro ⟨text, h, -⟩
    apply hkind _ h
  cases kind with
  | monadic m =>
      apply hother _ nofun
      intro h
      obtain h | ⟨op, -, h⟩ := Except.bind_eq_error_iff.mp h
      · obtain ⟨_, h⟩ := lineOpcode_eq_error h
        cases h
      · cases h
  | dyadic m mode a =>
      apply hother _ nofun
      intro h
      obtain h | ⟨op, -, h⟩ := Except.bind_eq_error_iff.mp h
      · obtain ⟨_, h⟩ := lineOpcode_eq_error h
        cases h
      · have hoperand : encodeOperand resolve id 2 a >>= placeOperand id 1 2 2
            ≠ .error (.inconsistent line? cause) :=
          encodeOperand_bind_placeOperand_ne_inconsistent 1 2 a
        obtain h | ⟨_, _, h⟩ := Except.bind_eq_error_iff.mp h
        · cases h
        · obtain h | ⟨encoding, hencoding, h⟩ := Except.bind_eq_error_iff.mp h
          · apply hoperand (Except.bind_eq_error_iff.mpr (.inl h))
          · obtain h | ⟨_, _, h⟩ := Except.bind_eq_error_iff.mp h
            · apply hoperand (Except.bind_eq_error_iff.mpr (.inr ⟨encoding, hencoding, h⟩))
            · cases h
  | align a => apply hother nofun nofun
  | block a => apply hother nofun nofun
  | data kind a =>
      cases kind with
      | ascii =>
          cases a with
          | symbolic name r => cases hsize rfl
          | literal literal =>
              cases literal with
              | text text =>
                  apply (Except.bind_eq_error_iff.trans (or_iff_left _)).trans
                  · apply fill_text_eq_error_iff.trans
                    simp
                  · rintro ⟨_, _, h⟩
                    cases h
              | _ => cases hsize rfl
      | byte =>
          apply hother _ nofun
          apply encodeOperand_bind_placeOperand_ne_inconsistent
      | word =>
          apply hother _ nofun
          apply encodeOperand_bind_placeOperand_ne_inconsistent
  | _ => cases hsize rfl

end

section

variable {addresses : LineTable Address} {resolve : SymbolRef → Option UInt64} {index start : Nat}
  {lines : List NumberedLine} {s : Section} {e : AssemblyError}

/-- Lines that have room are emitted until one cannot be encoded. -/
theorem exists_of_emitFrom_eq_error
    (hroom : start + (lines.map addresses.sizeAt).sum ≤ s.bounds.byteCount)
    (h : s.emitFrom index addresses resolve start lines = .error e) :
  ∃ l ∈ lines, ∃ x, addresses.get? l.id = some x ∧ encodeLine resolve l x.size.toNat = .error e
  := by
  induction lines generalizing start with
  | nil => cases h
  | cons l lines ih =>
      rw [List.map_cons, List.sum_cons, LineTable.sizeAt] at hroom
      rw [Section.emitFrom] at h
      cases hl : addresses.get? l.id with
      | none =>
          rw [hl] at h hroom
          rw [Option.map_none, Option.getD_none, Nat.zero_add] at hroom
          obtain ⟨l', hl', hx⟩ := ih hroom h
          use l', List.mem_cons_of_mem _ hl'
      | some x =>
          rw [hl] at h hroom
          rw [Option.map_some, Option.getD_some, ← Nat.add_assoc] at hroom
          simp only [if_neg (show ¬ s.bounds.byteCount < start + x.size.toNat by omega)] at h
          obtain h | ⟨_, _, h⟩ := Except.bind_eq_error_iff.mp h
          · use l, List.mem_cons_self, x, hl
          · obtain h | ⟨_, _, h⟩ := Except.bind_eq_error_iff.mp h
            · obtain ⟨l', hl', hx⟩ := ih hroom h
              use l', List.mem_cons_of_mem _ hl'
            · cases h

theorem exists_of_section_emit_eq_error (hsized : Sized addresses s.lines)
    (hsize : s.bounds.byteCount = (s.lines.map addresses.sizeAt).sum)
    (h : s.emit index addresses resolve = .error e) :
  ¬ s.isZeroed
    ∧ ∃ l ∈ s.lines, ∃ x, addresses.get? l.id = some x
      ∧ encodeLine resolve l x.size.toNat = .error e
  := by
  by_cases hs : s.isZeroed
  · rw [Section.emit, if_pos hs] at h
    cases h
  · use hs
    have hroom : 0 + (s.lines.map addresses.sizeAt).sum ≤ s.bounds.byteCount := by omega
    rw [Section.emit, if_neg hs] at h
    obtain h | ⟨code, hcode, h⟩ := Except.bind_eq_error_iff.mp h
    · apply exists_of_emitFrom_eq_error hroom h
    · have hlength := ((emitFrom_eq_ok_iff hroom).mp hcode).length_bytes hsized
      rw [if_pos (by rw [hlength, hsize])] at h
      cases h

/-- An emission of sections that are filled by their lines fails at a line that cannot be
encoded. -/
theorem exists_of_emit_eq_error {sections : List Section}
    (hsections : ∀ s ∈ sections, Sized addresses s.lines
      ∧ s.bounds.byteCount = (s.lines.map addresses.sizeAt).sum)
    (h : emit sections addresses resolve = .error e) :
  ∃ s ∈ sections, ¬ s.isZeroed
    ∧ ∃ l ∈ s.lines, ∃ x, addresses.get? l.id = some x
      ∧ encodeLine resolve l x.size.toNat = .error e
  := by
  rw [emit] at h
  obtain h | ⟨_, _, h⟩ := Except.bind_eq_error_iff.mp h
  · obtain ⟨⟨s, index⟩, hmem, h⟩ := Except.exists_of_mapM_eq_error h
    have hs := List.fst_mem_of_mem_zipIdx hmem
    obtain ⟨hsized, hsize⟩ := hsections s hs
    use s, hs
    apply exists_of_section_emit_eq_error hsized hsize h
  · cases h

end

/-! ### Assembling -/

/-- A section that is filled by its lines. -/
structure Section.Filled (s : Section) (addresses : LineTable Address) : Prop where
  /-- Only lines of a kind that can take bytes have an address. -/
  addressable : ∀ l ∈ s.lines, addresses.contains l.id → ∀ base, (l.line.size? base).isSome
  /-- No line ends after the end of the section. -/
  within : ∀ {before l after}, s.lines = before ++ l :: after →
    (before.map addresses.sizeAt).sum + addresses.sizeAt l ≤ s.bounds.byteCount
  /-- The bytes of the lines reach the end of the section. -/
  full : ∀ {index resolve code}, s.emitFrom index addresses resolve 0 s.lines = .ok code →
    code.bytes.length = s.bounds.byteCount

/-- What the stages of an assembly have to agree on. -/
structure Agreement (program : Program) (symbols : SymbolTable) (options : Options) : Prop where
  /-- Every symbol that a line declares is in the table. -/
  declared : ∀ l ∈ program, ∀ i ∈ l.symbol?,
    ((symbols.bindImports options.linked).get? i).isSome
  /-- A schedule has every section once. -/
  scheduled : ∀ {sections steps},
    program.sections (symbols.bindImports options.linked) options.initial = .ok sections →
    schedule sections options.base = .ok steps →
    (steps.map (·.index)).Perm (List.range sections.length)
  /-- The lines of a section that has been laid out fill it. -/
  filled : ∀ {sections laid},
    program.sections (symbols.bindImports options.linked) options.initial = .ok sections →
    (assign symbols.id sections options.base).outcome = .ok laid →
    ∀ s ∈ laid, s.Filled (assign symbols.id sections options.base).addresses

theorem Line.isSome_size? {l : Line} {base : UInt16} (h : l.size base ≠ 0) (base' : UInt16) :
  (l.size? base').isSome
  := by
  obtain ⟨kind, symbol?, comment?⟩ := l
  cases kind with
  | data kind a =>
      cases kind with
      | ascii => rfl
      | byte => rfl
      | word => rfl
  | monadic m => rfl
  | dyadic m mode a => rfl
  | align a => rfl
  | block a => rfl
  | _ => cases h rfl

/-- Lines with sizes fill a section of that size. -/
theorem Sized.filled {addresses : LineTable Address} {s : Section}
    (hsized : Sized addresses s.lines)
    (hsize : s.bounds.byteCount = (s.lines.map addresses.sizeAt).sum) :
  s.Filled addresses
  where
  addressable l hl haddress base := by
    obtain ⟨x, hx⟩ := Option.isSome_iff_exists.mp haddress
    obtain ⟨hne, base', hbase⟩ := hsized.of_some l hl x hx
    rw [hbase] at hne
    apply Line.isSome_size? hne
  within {before l after} hlines := by
    rw [hsize, hlines, List.map_append, List.map_cons, List.sum_append, List.sum_cons]
    omega
  full {index resolve code} hcode := by
    have hroom : 0 + (s.lines.map addresses.sizeAt).sum ≤ s.bounds.byteCount := by omega
    rw [((emitFrom_eq_ok_iff hroom).mp hcode).length_bytes hsized, hsize]

section

variable {d : Document} {id : TableId} {u : ProgramUnit}

theorem isSome_get?_of_lower (hlower : d.lower id = .ok u) (linked : List SymbolTable) {l : Line}
    (hl : l ∈ u.program) {i : SymbolId} (hi : l.symbol? = some i) :
  ((u.symbols.bindImports linked).get? i).isSome
  := by
  have hnames := map_name?_symbols (Document.lower_eq_ok hlower).2.2
  have hmem := List.mem_map_of_mem (f := u.symbols.name?) (List.mem_filterMap.mpr ⟨l, hl, hi⟩)
  rw [hnames] at hmem
  obtain ⟨name, -, hname⟩ := List.mem_map.mp hmem
  obtain ⟨e, he, -⟩ := Option.map_eq_some_iff.mp hname.symm
  rw [SymbolTable.get?_bindImports, he]
  rfl

/-- The stages of the assembly of a document agree. -/
theorem agreement_of_lower (hlower : d.lower id = .ok u) (options : Options) :
  Agreement u.program u.symbols options
  where
  declared _ hl _ hi := isSome_get?_of_lower hlower options.linked hl hi
  scheduled hsections hsteps :=
    index_schedule_perm (Program.sections_ne_nil hsections) hsteps
  filled hsections hassign s hs := by
    obtain ⟨hsized, hsize⟩ := (assign_laid hsections hassign).2 s hs
    apply hsized.filled hsize

/-- A text that is longer than a line can be, in a section with bytes. -/
structure Overlong (sections : List Section) (l : NumberedLine) (text : List UInt8) : Prop where
  kind_eq : l.line.kind = .data .ascii (.literal (.text text))
  length_lt : 65535 < text.length
  mem : ∃ s ∈ sections, ¬ s.isZeroed ∧ l ∈ s.lines

/-- An assembly whose labels are in the table fails with an internal error at an overlong text
only. -/
theorem overlong_of_inconsistent {program : Program} {symbols : SymbolTable} {options : Options}
    (hdeclared : ∀ l ∈ program, ∀ i ∈ l.symbol?,
      ((symbols.bindImports options.linked).get? i).isSome)
    {line? : Option LineId} {cause : Inconsistency}
    (h : (assemble program symbols options).outcome = .error (.inconsistent line? cause)) :
  ∃ sections l text,
    program.sections (symbols.bindImports options.linked) options.initial = .ok sections
      ∧ Overlong sections l text ∧ line? = some l.id ∧ cause = .overfull text.length 65535
  := by
  rw [assemble, Program.split_eq] at h
  cases hsections : program.sections (symbols.bindImports options.linked) options.initial with
  | error e =>
      rw [hsections] at h
      cases h
      obtain ⟨k, ⟨line, hline, hfault⟩, -⟩ := Program.sections_eq_error_iff.mp hsections
      cases hfault with
      | unknownSymbol hi hnone =>
          have hsome := hdeclared line (List.mem_of_getElem? hline) _ hi
          rw [hnone] at hsome
          cases hsome
  | ok sections =>
      rw [hsections] at h
      obtain h | ⟨laid, hassign, h⟩ := Except.bind_eq_error_iff.mp h
      · obtain ⟨_, _, h⟩ :=
          unsupportedArgument_of_assign (Program.sections_ne_nil hsections) h
        cases h
      · obtain h | ⟨_, _, h⟩ := Except.bind_eq_error_iff.mp h
        · obtain ⟨hunplaced, hlaid⟩ := assign_laid hsections hassign
          obtain ⟨s, hs, hzeroed, l, hl, x, hx, h⟩ := exists_of_emit_eq_error hlaid h
          obtain ⟨hne, base, hbase⟩ := (hlaid s hs).1.of_some l hl x hx
          rw [hbase] at hne h
          obtain ⟨text, hkind, hlength, rfl, rfl⟩ := (encodeLine_eq_inconsistent_iff hne).mp h
          have hmem := List.mem_map_of_mem (f := Section.unplaced) hs
          rw [hunplaced] at hmem
          obtain ⟨s', hs', heq⟩ := List.mem_map.mp hmem
          have hlines : s'.lines = s.lines := congrArg (·.lines) heq
          have hflags : s'.flags = s.flags := congrArg (·.flags) heq
          refine ⟨sections, l, text, rfl, ⟨hkind, hlength, s', hs', ?_, ?_⟩, rfl, rfl⟩
          · rwa [Section.isZeroed, hflags]
          · rwa [hlines]
        · cases h

end

/-! ### An overlong text -/

/-- A line that is a text. -/
def NumberedLine.ofText (text : List UInt8) : NumberedLine :=
  ⟨0, { kind := .data .ascii (.literal (.text text)) }⟩

/-- A section that is a text. -/
def Section.ofText (text : List UInt8) (bounds : Bounds) : Section :=
  { toHeading := .text, bounds, lines := [.ofText text] }

section

variable {text : List UInt8}

/-- An overlong text is laid out as if it had 65535 bytes, of which none stand before the split of
the anchor. -/
theorem assign_ofText (h : 65535 < text.length) :
  assign 0 [.ofText text {}] 0
    = ⟨[⟨.ofText text, 0, 0, 65535, none⟩], .ok [.ofText text ⟨0, 65535, 0, 0 + 65535⟩]⟩
  := by
  have hplace : Pass.place ⟨0, 0, .forward⟩ 0 (.ofText text)
      = .ok (⟨.ofText text, 0, 0, 65535, none⟩, 65535) := by
    simp only [Pass.place, NumberedLine.ofText, Line.size, Line.size?, Argument.bytes?,
      Option.map_some, Option.getD_some, min_eq_left h.le]
    rfl
  have hwalk : Pass.walk ⟨0, 0, .forward⟩ 0 [.ofText text]
      = ⟨[⟨.ofText text, 0, 0, 65535, none⟩], .ok ⟨0, 65535, some 0, 65535⟩⟩ := by
    simp only [Pass.walk, Direction.order, Pass.visit, hplace]
    rfl
  have hstep : Progress.step 0 ⟨[.ofText text {}], 0, 0⟩ (.anchor 0 0 0)
      = ⟨[⟨.ofText text, 0, 0, 65535, none⟩],
        .ok ⟨[.ofText text ⟨0, 65535, 0, 0 + 65535⟩], 0 - 1, 65535⟩⟩ := by
    simp only [Progress.step, Progress.lines, Section.ofText, List.getElem?_cons_zero,
      Option.map_some, Option.getD_some, List.drop_zero, hwalk]
    rfl
  have hschedule : schedule [.ofText text {}] 0 = .ok [.anchor 0 0 0] := rfl
  simp only [assign, hschedule, List.foldlM_cons, List.foldlM_nil, hstep]
  rfl

/-- The bytes of an overlong text do not fit in the room that it was given. -/
theorem emit_ofText (h : 65535 < text.length) (resolve : SymbolRef → Option UInt64) :
  emit [.ofText text ⟨0, 65535, 0, 0 + 65535⟩] (.ofInserts [(0, ⟨0, 65535⟩)]) resolve
    = .error (.inconsistent (some 0) (.overfull text.length 65535))
  := by
  have hget : LineTable.get? (.ofInserts [(0, (⟨0, 65535⟩ : Address))]) 0 = some ⟨0, 65535⟩ := by
    simp [LineTable.ofInserts, LineTable.keepLast, LineTable.get?, LineTable.search,
      LineTable.size]
  have hfill : fill 0 65535 text
      = .error (.inconsistent (some 0) (.overfull text.length 65535)) := by
    rw [fill, if_neg (by omega)]
  simp [emit, Section.emit, Section.ofText, Section.isZeroed, Section.emitFrom, hget,
    NumberedLine.ofText, encodeLine, Argument.bytes?, hfill, bind, Except.bind]
  rfl

theorem assemble_ofText (h : 65535 < text.length) :
  (assemble [(NumberedLine.ofText text).line] { id := 0 } {}).outcome
    = .error (.inconsistent (some 0) (.overfull text.length 65535))
  := by
  have hsections : Program.sections [(NumberedLine.ofText text).line]
      (SymbolTable.bindImports { id := 0 } []) .text = .ok [.ofText text {}] := rfl
  have hassign : assign (SymbolTable.bindImports { id := 0 } []).id [.ofText text {}] 0 = _ :=
    assign_ofText h
  rw [assemble, Program.split_eq, hsections]
  dsimp only [Except.map]
  rw [hassign]
  refine Except.bind_eq_error_iff.mpr (.inr ⟨_, rfl, ?_⟩)
  apply Except.bind_eq_error_iff.mpr
  left
  apply emit_ofText h

theorem lower_ofText (text : String) :
  Document.lower ⟨[{ operation := .ascii text }]⟩ 0
    = .ok ⟨[(NumberedLine.ofText (utf8Bytes text)).line], { id := 0 }⟩
  := rfl

theorem length_utf8Bytes_replicate (n : Nat) :
  (utf8Bytes (String.ofList (List.replicate n 'a'))).length = n
  := by
  have hchar : 'a'.utf8Size = 1 := rfl
  simp [utf8Bytes, hchar]

end

/-! ### The law of internal errors -/

/-- A document that fails with an internal error has a text of more than 65535 bytes in a section
with bytes; whatever else the stages of an assembly check holds. -/
theorem inconsistent_only_if_overlong {d : Document} {id : TableId} {u : ProgramUnit}
    (hlower : d.lower id = .ok u) (options : Options) :
  Agreement u.program u.symbols options
    ∧ ∀ line? cause,
      (assemble u.program u.symbols options).outcome = .error (.inconsistent line? cause) →
      ∃ sections l text,
        u.program.sections (u.symbols.bindImports options.linked) options.initial = .ok sections
          ∧ Overlong sections l text ∧ line? = some l.id
          ∧ cause = .overfull text.length 65535
  := by
  have hagree := agreement_of_lower hlower options
  use hagree
  intro line? cause h
  apply overlong_of_inconsistent hagree.declared h

/-- A text of 65536 letters is such a document. -/
theorem inconsistent_of_65536_letters :
  ∃ u, Document.lower ⟨[{ operation := .ascii (String.ofList (List.replicate 65536 'a')) }]⟩ 0
      = .ok u
    ∧ (assemble u.program u.symbols {}).outcome
      = .error (.inconsistent (some 0) (.overfull 65536 65535))
    ∧ ∃ sections l text, u.program.sections (u.symbols.bindImports []) .text = .ok sections
      ∧ Overlong sections l text ∧ text.length = 65536
  := by
  have hlength := length_utf8Bytes_replicate 65536
  have hfail := assemble_ofText (Nat.lt_of_lt_of_eq (by decide : 65535 < 65536) hlength.symm)
  rw [hlength] at hfail
  obtain ⟨sections, l, text, hsections, hoverlong, -, hcause⟩ :=
    (inconsistent_only_if_overlong (lower_ofText _) {}).2 _ _ hfail
  exact ⟨_, lower_ofText _, hfail, sections, l, text, hsections, hoverlong,
    (Inconsistency.overfull.inj hcause).1.symm⟩

end Pep10
