import Pep10.Proofs.Faults
import Pep10.Proofs.SymbolValues
import Mathlib.Data.List.Pairwise

/-!
# Decoding

The bytes of a program that consists of instructions say what the instructions are.  Each mnemonic
has a span of opcodes of its own, in which the mode is the distance from the base opcode.  So the
first byte of an instruction tells its mnemonic and its mode, and with them how many bytes belong
to its operand, and decoding goes on behind them with the next instruction.
-/

namespace Pep10

/-! ### Opcodes -/

/-- The number of opcodes of a mnemonic of a form, from its base opcode on. -/
def Form.span : Form → Nat
  | .unaryPlain => 1
  | .unaryRegister => 1
  | .branch => 2
  | _ => 8

/-- The mode of the opcode at a distance from the base opcode. -/
def Form.mode? : Form → (distance : Nat) → Option AddressingMode
  | .unaryPlain, _ => none
  | .unaryRegister, _ => none
  | .branch, 0 => some .immediate
  | .branch, _ => some .indexed
  | _, distance => AddressingMode.all[distance]?

namespace Mnemonic

theorem mem_all (m : Mnemonic) :
  m ∈ all
  := by
  cases m
  all_goals decide

theorem baseOpcode_add_span_le (m : Mnemonic) :
  m.baseOpcode.toNat + m.form.span ≤ 256
  := by
  cases m
  all_goals decide

/-- The opcodes of a mnemonic come before those of the next one. -/
theorem pairwise_all :
  all.Pairwise fun m m' => m.baseOpcode.toNat + m.form.span ≤ m'.baseOpcode.toNat
  := by
  decide

/-- The opcodes of two mnemonics, one after the other. -/
def Apart (m m' : Mnemonic) : Prop :=
  m.baseOpcode.toNat + m.form.span ≤ m'.baseOpcode.toNat
    ∨ m'.baseOpcode.toNat + m'.form.span ≤ m.baseOpcode.toNat

instance : Std.Symm Apart where
  symm _ _ := Or.symm

theorem apart_of_ne {m m' : Mnemonic} (h : m ≠ m') :
  m.Apart m'
  := by
  have hall : all.Pairwise Apart := pairwise_all.imp Or.inl
  apply hall.forall m.mem_all m'.mem_all h

end Mnemonic

theorem AddressingMode.getElem?_all_field (mode : AddressingMode) :
  all[mode.field.toNat]? = some mode
  := by
  cases mode
  all_goals rfl

theorem AddressingMode.toNat_field_lt (mode : AddressingMode) :
  mode.field.toNat < 8
  := by
  cases mode
  all_goals decide

/-- A distance within the span is added to the base opcode without overflow. -/
theorem toNat_baseOpcode_add {m : Mnemonic} {distance : UInt8} (h : distance.toNat < m.form.span) :
  (m.baseOpcode + distance).toNat = m.baseOpcode.toNat + distance.toNat
  := by
  have := m.baseOpcode_add_span_le
  rw [UInt8.toNat_add]
  omega

/-- The forms that keep their mode in a field of three bits. -/
theorem exists_of_field {m : Mnemonic} (mode : AddressingMode)
    (hform : m.form = .plain ∨ m.form = .register ∨ m.form = .store) :
  ∃ distance < m.form.span,
    (m.baseOpcode + mode.field).toNat = m.baseOpcode.toNat + distance
      ∧ m.form.mode? distance = some mode
  := by
  obtain ⟨hspan, hmode⟩ : m.form.span = 8
      ∧ ∀ distance, m.form.mode? distance = AddressingMode.all[distance]? := by
    obtain hform | hform | hform := hform
    all_goals rw [hform]; exact ⟨rfl, fun _ => rfl⟩
  have hlt : mode.field.toNat < m.form.span := hspan ▸ mode.toNat_field_lt
  use mode.field.toNat, hlt, toNat_baseOpcode_add hlt
  rw [hmode, mode.getElem?_all_field]

/-- An opcode lies in the span of its mnemonic, at a distance that tells the mode. -/
theorem exists_of_opcode {m : Mnemonic} {mode : Option AddressingMode} {b : UInt8}
    (h : opcode m mode = .ok b) :
  ∃ distance < m.form.span, b.toNat = m.baseOpcode.toNat + distance
    ∧ m.form.mode? distance = mode
  := by
  cases hform : m.form with
  | unaryPlain | unaryRegister =>
      cases mode with
      | none =>
          simp only [opcode, hform, Except.ok.injEq] at h
          exact ⟨0, Nat.one_pos, h ▸ rfl, rfl⟩
      | some mode => simp [opcode, hform] at h
  | branch =>
      have hone : (1 : UInt8).toNat < m.form.span := by simp [hform, Form.span]
      cases mode with
      | none => simp [opcode, hform] at h
      | some mode =>
          cases mode with
          | immediate =>
              simp only [opcode, hform, Except.ok.injEq] at h
              exact ⟨0, Nat.two_pos, h ▸ rfl, rfl⟩
          | indexed =>
              simp only [opcode, hform, Except.ok.injEq] at h
              exact ⟨1, Nat.one_lt_two, h ▸ toNat_baseOpcode_add hone, rfl⟩
          | _ => simp [opcode, hform] at h
  | plain | register =>
      cases mode with
      | none => simp [opcode, hform] at h
      | some mode =>
          simp only [opcode, hform, Except.ok.injEq] at h
          rw [← hform, ← h]
          apply exists_of_field mode (by simp [hform])
  | store =>
      cases mode with
      | none => simp [opcode, hform] at h
      | some mode =>
          cases mode with
          | immediate => simp [opcode, hform] at h
          | _ =>
              simp only [opcode, hform, Except.ok.injEq] at h
              rw [← hform, ← h]
              apply exists_of_field _ (by simp [hform])

/-- An opcode belongs to one mnemonic with one mode. -/
theorem opcode_inj {m m' : Mnemonic} {mode mode' : Option AddressingMode} {b : UInt8}
    (h : opcode m mode = .ok b) (h' : opcode m' mode' = .ok b) :
  m = m' ∧ mode = mode'
  := by
  obtain ⟨distance, hlt, hb, hmode⟩ := exists_of_opcode h
  obtain ⟨distance', hlt', hb', hmode'⟩ := exists_of_opcode h'
  have hm : m = m' := by
    by_contra hne
    obtain hapart | hapart := Mnemonic.apart_of_ne hne
    · omega
    · omega
  subst hm
  have hdistance : distance = distance' := by omega
  use rfl
  rw [← hmode, ← hmode', hdistance]

/-- Only unary instructions stand without a mode. -/
theorem isUnary_of_opcode {m : Mnemonic} {b : UInt8} (h : opcode m none = .ok b) :
  m.isUnary
  := by
  cases hform : m.form with
  | unaryPlain | unaryRegister => simp [Mnemonic.isUnary, hform]
  | _ => simp [opcode, hform] at h

/-- Every mnemonic, without a mode and with each one. -/
def encodings : List (Mnemonic × Option AddressingMode) :=
  Mnemonic.all.flatMap fun m => (none :: AddressingMode.all.map some).map (m, ·)

/-- The mnemonic and the mode of an opcode. -/
def decodeOpcode? (b : UInt8) : Option (Mnemonic × Option AddressingMode) :=
  encodings.find? fun x => opcode x.1 x.2 = .ok b

theorem mem_encodings (x : Mnemonic × Option AddressingMode) :
  x ∈ encodings
  := by
  obtain ⟨m, mode⟩ := x
  have hmode : mode ∈ none :: AddressingMode.all.map some := by
    cases mode with
    | none => apply List.mem_cons_self
    | some mode =>
        apply List.mem_cons_of_mem
        apply List.mem_map_of_mem (List.mem_of_getElem? mode.getElem?_all_field)
  apply List.mem_flatMap.mpr ⟨m, m.mem_all, List.mem_map_of_mem hmode⟩

/-- Reading an opcode undoes writing it. -/
theorem decodeOpcode?_eq_some_iff {b : UInt8} {m : Mnemonic} {mode : Option AddressingMode} :
  decodeOpcode? b = some (m, mode) ↔ opcode m mode = .ok b
  := by
  constructor
  · intro h
    simpa using List.find?_some h
  · intro h
    have hsome : (decodeOpcode? b).isSome := by
      rw [decodeOpcode?, List.find?_isSome]
      exact ⟨(m, mode), mem_encodings _, decide_eq_true h⟩
    obtain ⟨x, hx⟩ := Option.isSome_iff_exists.mp hsome
    have hfound : opcode x.1 x.2 = .ok b := by simpa using List.find?_some hx
    obtain ⟨hm, hmode⟩ := opcode_inj hfound h
    rw [hx, ← hm, ← hmode]

/-! ### Instructions -/

/-- An instruction with the value of its operand. -/
inductive Instruction where
  | unary (mnemonic : Mnemonic)
  | nonUnary (mnemonic : Mnemonic) (mode : AddressingMode) (operand : UInt16)
  deriving DecidableEq

/-- The number of two digits in base 256. -/
def wordOf (high low : UInt8) : UInt16 :=
  (ofBigEndian [high, low]).toUInt16

/-- The instructions that bytes encode, one after the other. -/
def decode? : List UInt8 → Option (List Instruction)
  | [] => some []
  | op :: bytes =>
    match decodeOpcode? op with
    | none => none
    | some (m, none) => (decode? bytes).map (.unary m :: ·)
    | some (m, some mode) =>
      match bytes with
      | high :: low :: rest => (decode? rest).map (.nonUnary m mode (wordOf high low) :: ·)
      | _ => none

variable {resolve : SymbolRef → Option UInt64}

/-- The number that an operand of an instruction stands for, if it has two digits. -/
def Argument.word? (resolve : SymbolRef → Option UInt64) (a : Argument) : Option UInt16 :=
  let number? :=
    match a with
    | .literal l => (l.value 2).toOption
    | .symbolic _ r => resolve r
  number?.bind fun v => if v.toNat < 65536 then some v.toUInt16 else none

/-- The instruction that a line of a program is. -/
def LineKind.instruction? (resolve : SymbolRef → Option UInt64) : LineKind → Option Instruction
  | .monadic m => some (.unary m)
  | .dyadic m (some mode) a => (a.word? resolve).map (.nonUnary m mode)
  | _ => none

/-- An instruction that has an operand just if its mnemonic takes one. -/
def LineKind.IsComplete : LineKind → Prop
  | .monadic m => m.isUnary
  | .dyadic m _ _ => ¬ m.isUnary
  | _ => False

theorem Argument.word?_of_hasValue {a : Argument} {v : UInt64} (h : a.HasValue resolve 2 v)
    (hpending : a.pending? resolve = none) (hv : v.toNat < 65536) :
  a.word? resolve = some v.toUInt16
  := by
  cases a with
  | literal l =>
      rw [hasValue_literal_iff] at h
      simp [word?, h, Except.toOption, hv]
  | symbolic name r =>
      rw [hasValue_symbolic_iff] at h
      cases hr : resolve r with
      | none => simp [pending?, hr] at hpending
      | some w =>
          rw [hr, Option.getD_some] at h
          subst h
          simp [word?, hr, hv]

theorem decode?_unary {op : UInt8} {m : Mnemonic} (h : opcode m none = .ok op)
    (rest : List UInt8) :
  decode? (op :: rest) = (decode? rest).map (.unary m :: ·)
  := by
  rw [decode?, decodeOpcode?_eq_some_iff.mpr h]

theorem decode?_nonUnary {op high low : UInt8} {m : Mnemonic} {mode : AddressingMode}
    (h : opcode m (some mode) = .ok op) (rest : List UInt8) :
  decode? (op :: high :: low :: rest)
    = (decode? rest).map (.nonUnary m mode (wordOf high low) :: ·)
  := by
  rw [decode?, decodeOpcode?_eq_some_iff.mpr h]

/-- Decoding reads the encoding of an instruction and goes on behind it. -/
theorem Encodes.exists_instruction {size : Nat} {bytes : List UInt8} {kind : LineKind}
    (h : Encodes resolve size bytes kind) (hkind : kind.IsComplete)
    (hpending : kind.pending? resolve = none) :
  ∃ i, kind.instruction? resolve = some i
    ∧ ∀ rest, decode? (bytes ++ rest) = (decode? rest).map (i :: ·)
  := by
  cases kind with
  | monadic m =>
      obtain ⟨op, hop, rfl⟩ := h
      exact ⟨.unary m, rfl, decode?_unary hop⟩
  | dyadic m mode a =>
      obtain ⟨op, v, digits, hop, hv, hdigits, rfl⟩ := h
      cases mode with
      | none =>
          -- an operand after a unary opcode would be read as further instructions
          cases hkind (isUnary_of_opcode hop)
      | some mode =>
          have hlt := ((digits_iff (by decide)).mp hdigits).1
          obtain ⟨high, low, rfl⟩ := List.length_eq_two.mp hdigits.length_eq
          have hpending' : a.pending? resolve = none := by
            simpa [LineKind.pending?, LineKind.operand?] using hpending
          have hword : a.word? resolve = some (wordOf high low) := by
            rw [Argument.word?_of_hasValue hv hpending' hlt, wordOf, hdigits.value_eq]
          use .nonUnary m mode (wordOf high low)
          constructor
          · rw [LineKind.instruction?, hword]
            rfl
          · apply decode?_nonUnary hop
  | _ => cases hkind

theorem LineKind.IsComplete.isInstruction {l : Line} (h : l.kind.IsComplete) :
  l.isInstruction
  := by
  rw [Line.isInstruction]
  cases hkind : l.kind with
  | monadic m => rfl
  | dyadic m mode a => rfl
  | _ =>
      rw [hkind] at h
      cases h

/-- The code of lines that are instructions is decoded to them. -/
theorem Emitted.decode?_bytes {addresses : LineTable Address} {index start : Nat}
    {lines : List NumberedLine} {code : SectionCode}
    (h : Emitted addresses resolve index start lines code) (hsized : Sized addresses lines)
    (hlines : ∀ l ∈ lines, l.line.kind.IsComplete) (hrelocations : code.relocations = []) :
  ∃ is, decode? code.bytes = some is
    ∧ lines.map (·.line.kind.instruction? resolve) = is.map some
  := by
  induction h with
  | nil => exact ⟨[], rfl, rfl⟩
  | @skip _ l _ _ hl _ _ =>
      -- only lines without bytes are left out
      obtain ⟨base, hbase⟩ := hsized.of_none l List.mem_cons_self hl
      have hinstruction := (hlines l List.mem_cons_self).isInstruction
      rw [Line.isInstruction_of_size_eq_zero hbase] at hinstruction
      cases hinstruction
  | @line _ l lines e c rest hl hcode _ ih =>
      rw [List.forall_mem_cons] at hlines
      rw [SectionCode.cons, List.append_eq_nil_iff, List.map_eq_nil_iff,
        Option.toList_eq_nil_iff] at hrelocations
      obtain ⟨hencodes, hpending⟩ :=
        (hsized.encodeLine_eq_ok_iff List.mem_cons_self hl).mp hcode
      obtain ⟨i, hi, hdecode⟩ :=
        hencodes.exists_instruction hlines.1 (hpending ▸ hrelocations.1)
      obtain ⟨is, his, hrest⟩ := ih hsized.tail hlines.2 hrelocations.2
      use i :: is
      constructor
      · rw [SectionCode.cons, hdecode, his]
        rfl
      · rw [List.map_cons, List.map_cons, hi, hrest]

/-! ### Programs of instructions -/

theorem named_of_heading?_eq_none {lines : List NumberedLine} (h : ∀ l ∈ lines, l.heading? = none)
    (name : String) :
  named name lines = lines.map (name, ·)
  := by
  induction lines with
  | nil => rfl
  | cons l lines ih =>
      rw [List.forall_mem_cons] at h
      have hname : l.nameAfter name = name := by rw [NumberedLine.nameAfter, h.1]; rfl
      rw [named, hname, ih h.2, List.map_cons]

/-- Lines without headings are one section. -/
theorem outline_of_heading?_eq_none {lines : List NumberedLine}
    (h : ∀ l ∈ lines, l.heading? = none) (initial : Heading) :
  outline initial lines = [.ofLines initial lines]
  := by
  have hheadings : headings initial lines = [initial] := by
    rw [headings, List.filterMap_eq_nil_iff.mpr h]
  rw [outline, hheadings, named_of_heading?_eq_none h, sectionsOf]
  simp [firstOfEachName, List.filter_map, Function.comp_def]

theorem LineKind.IsComplete.heading?_eq_none {l : NumberedLine} (h : l.line.kind.IsComplete) :
  l.heading? = none
  := by
  rw [NumberedLine.heading?]
  split
  · next hkind =>
    rw [hkind] at h
    cases h
  · rfl

section

variable {program : Program} {symbols : SymbolTable} {options : Options} {a : Assembly}

/-- A program of instructions has one section. -/
theorem exists_section_of_isComplete (h : (assemble program symbols options).outcome = .ok a)
    (hprogram : ∀ l ∈ program, l.kind.IsComplete) :
  ∃ s : Section, a.sections = [s] ∧ s.toHeading = options.initial ∧ s.lines = program.numbered
  := by
  obtain ⟨sections, hsections, hassign, -⟩ := exists_layout_of_assemble h
  have hunplaced := (assign_laid hsections hassign).1
  obtain ⟨-, -, rfl⟩ := Program.sections_eq_ok_iff.mp hsections
  have hheading : ∀ l ∈ program.numbered, l.heading? = none :=
    fun l hl => (Program.forall_mem_numbered_iff.mpr hprogram l hl).heading?_eq_none
  rw [outline_of_heading?_eq_none hheading, List.map_singleton,
    List.map_eq_singleton_iff] at hunplaced
  obtain ⟨s, hs, hunplaced⟩ := hunplaced
  refine ⟨s, hs, ?_, ?_⟩
  · apply (congrArg (·.toHeading) hunplaced).trans
    apply Section.toHeading_ofLines
  · apply (congrArg Section.lines hunplaced).trans
    apply Section.lines_ofLines

/-- The bytes of a program of instructions without relocations are decoded to the instructions. -/
theorem exists_decode?_of_assemble (h : (assemble program symbols options).outcome = .ok a)
    (hprogram : ∀ l ∈ program, l.kind.IsComplete) (hstored : ¬ options.initial.flags.zeroed)
    (hrelocations : a.object.relocations = []) :
  ∃ bytes is, a.object.buffers = [bytes] ∧ decode? bytes = some is
    ∧ program.map (·.kind.instruction?
        ((assemble program symbols options).symbols.resolveRef · options.linked)) = is.map some
  := by
  obtain ⟨s, hs, hheading, hlines⟩ := exists_section_of_isComplete h hprogram
  obtain ⟨codes, hemits⟩ := exists_emits h
  have hall := hemits.emitsAll
  rw [hs] at hall
  obtain ⟨code, _, hcode, hnil, rfl⟩ := List.forall₂_cons_left_iff.mp hall
  obtain rfl := List.forall₂_nil_left_iff.mp hnil
  rw [Section.Emits, Section.isZeroed, hheading, if_neg hstored] at hcode
  have hsized := hemits.sized s (hs ▸ List.mem_singleton_self s)
  have hcomplete : ∀ l ∈ s.lines, l.line.kind.IsComplete := by
    rw [hlines]
    apply Program.forall_mem_numbered_iff.mpr hprogram
  rw [hemits.object_eq] at hrelocations
  obtain ⟨is, hdecode, his⟩ :=
    hcode.decode?_bytes hsized hcomplete (by simpa using hrelocations)
  refine ⟨code.bytes, is, ?_, hdecode, ?_⟩
  · rw [hemits.object_eq]
    rfl
  · rw [← his, hlines]
    apply Eq.trans (congrArg (List.map _) program.map_line_numbered.symm)
    rw [List.map_map]
    rfl

end

/-! ### Documents of instructions -/

/-- Is the line of a document an instruction? -/
def Operation.isInstruction : Operation → Bool
  | .unary _ => true
  | .nonUnary _ _ _ => true
  | _ => false

/-- The instruction that a line of a document is. -/
def SourceLine.instruction? (t : SymbolTable) (resolve : SymbolRef → Option UInt64)
    (s : SourceLine) : Option Instruction :=
  (s.operation.kind t).instruction? resolve

/-- A document of instructions that is assembled to bytes without relocations. -/
structure Document.IsStream (d : Document) (u : ProgramUnit) (options : Options) (a : Assembly) :
    Prop where
  instructions : ∀ s ∈ d.lines, s.operation.isInstruction
  lower : ∃ id, d.lower id = .ok u
  stored : ¬ options.initial.flags.zeroed
  outcome : (assemble u.program u.symbols options).outcome = .ok a
  relocations : a.object.relocations = []

theorem Document.exists_isStream {d : Document} {id : TableId} {u : ProgramUnit}
    {options : Options} {buffers : List (List UInt8)}
    (hinstructions : ∀ s ∈ d.lines, s.operation.isInstruction) (hlower : d.lower id = .ok u)
    (hstored : ¬ options.initial.flags.zeroed)
    (hobject : (assemble u.program u.symbols options).outcome.map
      (fun a => (a.object.buffers, a.object.relocations)) = .ok (buffers, [])) :
  ∃ a, d.IsStream u options a ∧ a.object.buffers = buffers
  := by
  obtain ⟨a, ha, heq⟩ := Except.map_eq_ok_iff.mp hobject
  obtain ⟨hbuffers, hrelocations⟩ := Prod.mk_inj.mp heq
  exact ⟨a, ⟨hinstructions, ⟨id, hlower⟩, hstored, ha, hrelocations⟩, hbuffers⟩

namespace Document.IsStream

variable {d : Document} {u : ProgramUnit} {options : Options} {a : Assembly}

/-- Lowering refuses instructions that lack their operand or have one too many. -/
theorem isComplete (h : d.IsStream u options a) :
  ∀ l ∈ u.program, l.kind.IsComplete
  := by
  obtain ⟨id, hlower⟩ := h.lower
  have herror : ¬ ∃ e, d.lower id = .error e := by
    rw [hlower]
    rintro ⟨e, ⟨⟩⟩
  have hvalid := mt exists_lower_eq_error_iff.mpr herror
  rw [program_of_lower hlower, List.forall_mem_map]
  intro s hs
  have hinstruction := h.instructions s hs
  rw [SourceLine.line]
  cases hop : s.operation with
  | unary m =>
      by_contra hm
      apply hvalid ⟨s, hs, hop ▸ .missingOperand hm⟩
  | nonUnary m o mode =>
      intro hm
      apply hvalid ⟨s, hs, hop ▸ .unexpectedOperand hm⟩
  | _ =>
      rw [hop] at hinstruction
      cases hinstruction

/-- The bytes of a stream of instructions are decoded to the instructions. -/
theorem exists_decode? (h : d.IsStream u options a) :
  ∃ bytes is, a.object.buffers = [bytes] ∧ decode? bytes = some is
    ∧ d.lines.map (·.instruction? u.symbols
        ((assemble u.program u.symbols options).symbols.resolveRef · options.linked))
      = is.map some
  := by
  obtain ⟨id, hlower⟩ := h.lower
  obtain ⟨bytes, is, hbuffers, hdecode, his⟩ :=
    exists_decode?_of_assemble h.outcome h.isComplete h.stored h.relocations
  refine ⟨bytes, is, hbuffers, hdecode, ?_⟩
  rw [← his]
  apply Eq.symm
  apply Eq.trans (congrArg (List.map _) (program_of_lower hlower))
  rw [List.map_map]
  rfl

end Document.IsStream

/-- Documents of instructions with the same bytes are the same instructions. -/
theorem instructions_of_same_buffers {d d' : Document} {u u' : ProgramUnit}
    {options options' : Options} {a a' : Assembly} (h : d.IsStream u options a)
    (h' : d'.IsStream u' options' a') (hbuffers : a.object.buffers = a'.object.buffers) :
  ∃ is : List Instruction,
    d.lines.map (·.instruction? u.symbols
        ((assemble u.program u.symbols options).symbols.resolveRef · options.linked))
      = is.map some
    ∧ d'.lines.map (·.instruction? u'.symbols
        ((assemble u'.program u'.symbols options').symbols.resolveRef · options'.linked))
      = is.map some
  := by
  obtain ⟨bytes, is, hbytes, hdecode, his⟩ := h.exists_decode?
  obtain ⟨bytes', is', hbytes', hdecode', his'⟩ := h'.exists_decode?
  rw [hbytes, hbytes', List.singleton_inj] at hbuffers
  rw [hbuffers, hdecode', Option.some_inj] at hdecode
  rw [hdecode] at his'
  exact ⟨is, his, his'⟩

/-- A loop around a negation, with a label. -/
def Document.labeledLoop : Document where
  lines := [
    { operation := .nonUnary .ldwa (.decimal (-1)) (some .immediate), symbol? := some "again" },
    { operation := .unary .nega },
    { operation := .nonUnary .br (.symbol "again") (some .immediate) }]

/-- The program and the symbols of the document `labeledLoop`. -/
def ProgramUnit.labeledLoop : ProgramUnit where
  program := [
    { kind := .dyadic .ldwa (some .immediate) (.literal (.decimal (-1))), symbol? := some 0 },
    { kind := .monadic .nega },
    { kind := .dyadic .br (some .immediate) (.symbolic "again" ⟨0, 0⟩) }]
  symbols := {
    id := 0
    entries := [{ name := "again", state := .single }] }

/-- The same loop, with numbers only. -/
def Document.numberedLoop : Document where
  lines := [
    { operation := .nonUnary .ldwa (.hexadecimal 0xFFFF) (some .immediate) },
    { operation := .unary .nega },
    { operation := .nonUnary .br (.decimal 0) (some .immediate) }]

/-- The program of the document `numberedLoop`. -/
def ProgramUnit.numberedLoop : ProgramUnit where
  program := [
    { kind := .dyadic .ldwa (some .immediate) (.literal (.hexadecimal 0xFFFF)) },
    { kind := .monadic .nega },
    { kind := .dyadic .br (some .immediate) (.literal (.decimal 0)) }]
  symbols := { id := 1 }

theorem exists_isStream_labeledLoop :
  ∃ a, Document.labeledLoop.IsStream .labeledLoop {} a
    ∧ a.object.buffers = [[0xC0, 0xFF, 0xFF, 0x18, 0x24, 0, 0]]
  := by
  have hlower : Document.labeledLoop.lower 0 = .ok .labeledLoop := rfl
  apply Document.exists_isStream (by decide) hlower (by decide)
  cbv

theorem exists_isStream_numberedLoop :
  ∃ a, Document.numberedLoop.IsStream .numberedLoop {} a
    ∧ a.object.buffers = [[0xC0, 0xFF, 0xFF, 0x18, 0x24, 0, 0]]
  := by
  have hlower : Document.numberedLoop.lower 1 = .ok .numberedLoop := rfl
  apply Document.exists_isStream (by decide) hlower (by decide)
  cbv

theorem instructions_of_same_buffers_loop :
  ∃ a a', Document.labeledLoop.IsStream .labeledLoop {} a
    ∧ Document.numberedLoop.IsStream .numberedLoop {} a'
    ∧ a.object.buffers = a'.object.buffers
    ∧ ∃ is : List Instruction,
      Document.labeledLoop.lines.map (·.instruction? ProgramUnit.labeledLoop.symbols
          ((assemble ProgramUnit.labeledLoop.program ProgramUnit.labeledLoop.symbols
            {}).symbols.resolveRef · []))
        = is.map some
      ∧ Document.numberedLoop.lines.map (·.instruction? ProgramUnit.numberedLoop.symbols
          ((assemble ProgramUnit.numberedLoop.program ProgramUnit.numberedLoop.symbols
            {}).symbols.resolveRef · []))
        = is.map some
  := by
  obtain ⟨a, ha, hbuffers⟩ := exists_isStream_labeledLoop
  obtain ⟨a', ha', hbuffers'⟩ := exists_isStream_numberedLoop
  have heq : a.object.buffers = a'.object.buffers := by rw [hbuffers, hbuffers']
  exact ⟨a, a', ha, ha', heq, instructions_of_same_buffers ha ha' heq⟩

end Pep10
