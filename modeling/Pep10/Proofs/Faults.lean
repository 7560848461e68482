import Pep10.Proofs.Translation

/-!
# Faults of a document

A document is lowered unless one of its lines is invalid.  Whether a line is does not depend on the
other lines or on the symbol table, so the first invalid line is the one that is reported, with its
number and with what is wrong with it.
-/

namespace Pep10

/-! ### Faults of a line -/

/-- The count that an operand stands for. -/
def Operand.count? : Operand → Option Nat
  | .decimal n => if 0 ≤ n.toInt ∧ n.toInt < 65536 then some n.toInt.toNat else none
  | .hexadecimal n => some n.toNat
  | .character c => some c.toNat
  | .text _ => none
  | .symbol _ => none

/-- The operand of a line. -/
def Operation.argument? : Operation → Option Operand
  | .nonUnary _ o _ => some o
  | .align o => some o
  | .byte o => some o
  | .word o => some o
  | .block o => some o
  | .equate o => some o
  | .org o => some o
  | .burn o => some o
  | _ => none

/-- The letters that stand for flags, in lower case. -/
def Flags.letters : List Char :=
  ['r', 'w', 'x', 'z']

/-- A text has a letter that is no flag. -/
def HasOtherLetter (flags : String) : Prop :=
  ∃ c ∈ flags.toList, c.toLower ∉ Flags.letters

/-- A line that does not become a line of a program. -/
inductive Operation.Invalid : Operation → Prop
  | missingOperand {m : Mnemonic} (hm : ¬ m.isUnary) : Invalid (.unary m)
  | unexpectedOperand {m : Mnemonic} {o : Operand} {mode : Option AddressingMode}
      (hm : m.isUnary) : Invalid (.nonUnary m o mode)
  | nonAsciiCharacter {op : Operation} {c : Char} (hop : op.argument? = some (.character c))
      (hc : 128 ≤ c.toNat) : Invalid op
  | alignment {o : Operand} (ho : o.count? ∉ [some 1, some 2, some 4, some 8]) :
      Invalid (.align o)
  | blockSize {o : Operand} (ho : o.count? = none) : Invalid (.block o)
  | flags {name flags : String} (h : HasOtherLetter flags) : Invalid (.opening name flags)

/-- What is reported of an operand on the line with the given number. -/
inductive Operand.Fault (number : Nat) : Operand → DocumentError → Prop
  | nonAsciiCharacter {c : Char} (hc : 128 ≤ c.toNat) :
      Fault number (.character c) (.nonAsciiCharacter number c)

/-- What is reported of the line with the given number.  A mnemonic is looked at before the
operand, and the operand before its count. -/
inductive Operation.Fault (number : Nat) : Operation → DocumentError → Prop
  | missingOperand {m : Mnemonic} (hm : ¬ m.isUnary) :
      Fault number (.unary m) (.missingOperand number m)
  | unexpectedOperand {m : Mnemonic} {o : Operand} {mode : Option AddressingMode}
      (hm : m.isUnary) : Fault number (.nonUnary m o mode) (.unexpectedOperand number m)
  | operand {op : Operation} {o : Operand} {e : DocumentError} (hop : op.argument? = some o)
      (hm : ∀ m o mode, op = .nonUnary m o mode → ¬ m.isUnary) (ho : o.Fault number e) :
      Fault number op e
  | alignment {o : Operand} (ho : ∀ e, ¬ o.Fault number e)
      (hcount : o.count? ∉ [some 1, some 2, some 4, some 8]) :
      Fault number (.align o) (.invalidAlignment number)
  | blockSize {o : Operand} (ho : ∀ e, ¬ o.Fault number e) (hcount : o.count? = none) :
      Fault number (.block o) (.invalidBlockSize number)
  | flags {name flags : String} (h : HasOtherLetter flags) :
      Fault number (.opening name flags) (.invalidFlags number flags)

namespace Operation

variable {op : Operation} {o : Operand} {number : Nat} {e : DocumentError}

/-- A line is invalid when there is something to report of it. -/
theorem invalid_iff (op : Operation) (number : Nat) :
  op.Invalid ↔ ∃ e, op.Fault number e
  := by
  constructor
  · intro h
    cases h with
    | missingOperand hm => exact ⟨_, .missingOperand hm⟩
    | unexpectedOperand hm => exact ⟨_, .unexpectedOperand hm⟩
    | @nonAsciiCharacter _ c hop hc =>
        by_cases hm : ∃ m o mode, op = .nonUnary m o mode ∧ m.isUnary
        · obtain ⟨m, o, mode, rfl, hm⟩ := hm
          exact ⟨_, .unexpectedOperand hm⟩
        · refine ⟨_, .operand hop ?_ (.nonAsciiCharacter hc)⟩
          intro m o mode hop hunary
          apply hm ⟨m, o, mode, hop, hunary⟩
    | @alignment o hcount =>
        by_cases ho : ∃ e, o.Fault number e
        · obtain ⟨e, ho⟩ := ho
          exact ⟨e, .operand rfl (by simp) ho⟩
        · exact ⟨_, .alignment (not_exists.mp ho) hcount⟩
    | @blockSize o hcount =>
        by_cases ho : ∃ e, o.Fault number e
        · obtain ⟨e, ho⟩ := ho
          exact ⟨e, .operand rfl (by simp) ho⟩
        · exact ⟨_, .blockSize (not_exists.mp ho) hcount⟩
    | flags h => exact ⟨_, .flags h⟩
  · rintro ⟨e, h⟩
    cases h with
    | missingOperand hm => apply Invalid.missingOperand hm
    | unexpectedOperand hm => apply Invalid.unexpectedOperand hm
    | operand hop _ ho =>
        cases ho with
        | nonAsciiCharacter hc => apply Invalid.nonAsciiCharacter hop hc
    | alignment _ hcount => apply Invalid.alignment hcount
    | blockSize _ hcount => apply Invalid.blockSize hcount
    | flags h => apply Invalid.flags h

theorem fault_unary_iff {m : Mnemonic} :
  Fault number (.unary m) e ↔ ¬ m.isUnary ∧ e = .missingOperand number m
  := by
  constructor
  · intro h
    cases h with
    | missingOperand hm => exact ⟨hm, rfl⟩
    | operand hop _ _ => cases hop
  · rintro ⟨hm, rfl⟩
    apply Fault.missingOperand hm

theorem fault_nonUnary_iff {m : Mnemonic} {mode : Option AddressingMode} :
  Fault number (.nonUnary m o mode) e
    ↔ if m.isUnary then e = .unexpectedOperand number m else o.Fault number e
  := by
  split
  · next hm =>
    constructor
    · intro h
      cases h with
      | unexpectedOperand _ => rfl
      | operand _ hm' _ => cases hm' m o mode rfl hm
    · rintro rfl
      apply Fault.unexpectedOperand hm
  · next hm =>
    constructor
    · intro h
      cases h with
      | unexpectedOperand hm' => cases hm hm'
      | operand hop _ ho =>
          cases hop
          apply ho
    · intro ho
      apply Fault.operand rfl _ ho
      rintro _ _ _ ⟨⟩
      apply hm

theorem fault_align_iff :
  Fault number (.align o) e
    ↔ o.Fault number e
      ∨ (∀ e, ¬ o.Fault number e) ∧ o.count? ∉ [some 1, some 2, some 4, some 8]
        ∧ e = .invalidAlignment number
  := by
  constructor
  · intro h
    cases h with
    | operand hop _ ho =>
        cases hop
        exact .inl ho
    | alignment ho hcount => exact .inr ⟨ho, hcount, rfl⟩
  · rintro (ho | ⟨ho, hcount, rfl⟩)
    · apply Fault.operand rfl (by simp) ho
    · apply Fault.alignment ho hcount

theorem fault_block_iff :
  Fault number (.block o) e
    ↔ o.Fault number e
      ∨ (∀ e, ¬ o.Fault number e) ∧ o.count? = none ∧ e = .invalidBlockSize number
  := by
  constructor
  · intro h
    cases h with
    | operand hop _ ho =>
        cases hop
        exact .inl ho
    | blockSize ho hcount => exact .inr ⟨ho, hcount, rfl⟩
  · rintro (ho | ⟨ho, hcount, rfl⟩)
    · apply Fault.operand rfl (by simp) ho
    · apply Fault.blockSize ho hcount

theorem fault_opening_iff {name flags : String} :
  Fault number (.opening name flags) e
    ↔ HasOtherLetter flags ∧ e = .invalidFlags number flags
  := by
  constructor
  · intro h
    cases h with
    | operand hop _ _ => cases hop
    | flags h => exact ⟨h, rfl⟩
  · rintro ⟨h, rfl⟩
    apply Fault.flags h

/-- Lines of which only the operand can be wrong. -/
def isPlain : Operation → Bool
  | .byte _ => true
  | .word _ => true
  | .equate _ => true
  | .org _ => true
  | .burn _ => true
  | _ => false

theorem fault_iff_of_isPlain (hop : op.argument? = some o) (hplain : op.isPlain) :
  op.Fault number e ↔ o.Fault number e
  := by
  constructor
  · intro h
    cases h with
    | operand hop' _ ho =>
        rw [hop] at hop'
        cases hop'
        apply ho
    | _ => cases hplain
  · intro ho
    apply Fault.operand hop _ ho
    rintro m o mode rfl
    cases hplain

end Operation

/-! ### What lowering reports -/

theorem Lowering.run_pure_ne_error {α : Type} {a : α} {t : SymbolTable} {e : DocumentError} :
  (pure a : Lowering α).run t ≠ .error e
  := by
  rintro ⟨⟩

theorem Lowering.run_throw_eq_error_iff {α : Type} {t : SymbolTable} {e e' : DocumentError} :
  (throw e' : Lowering α).run t = .error e ↔ e = e'
  := by
  constructor
  · rintro ⟨⟩
    rfl
  · rintro rfl
    rfl

theorem Lowering.run_bind_eq_error_iff {α β : Type} {x : Lowering α} {f : α → Lowering β}
    {t : SymbolTable} {e : DocumentError} :
  (x >>= f).run t = .error e
    ↔ x.run t = .error e ∨ ∃ a u, x.run t = .ok (a, u) ∧ (f a).run u = .error e
  := by
  rw [StateT.run_bind, Except.bind_eq_error_iff, Prod.exists]

/-- What comes after a computation that cannot fail does not matter for what it reports. -/
theorem Lowering.run_map_eq_error_iff {α β : Type} {x : Lowering α} {f : α → β} {t : SymbolTable}
    {e : DocumentError} :
  (x >>= fun a => pure (f a)).run t = .error e ↔ x.run t = .error e
  := by
  rw [run_bind_eq_error_iff]
  apply or_iff_left
  rintro ⟨a, u, -, h⟩
  cases h

theorem Operand.lower_eq_error_iff {number : Nat} {o : Operand} {t : SymbolTable}
    {e : DocumentError} :
  (o.lower number).run t = .error e ↔ o.Fault number e
  := by
  constructor
  · intro h
    cases o with
    | character c =>
        rw [lower] at h
        split at h
        · cases h
        · next hc =>
          cases h
          apply Fault.nonAsciiCharacter (Nat.le_of_not_lt hc)
    | _ => cases h
  · intro h
    cases h with
    | nonAsciiCharacter hc =>
        rw [lower, if_neg (Nat.not_lt_of_le hc)]
        rfl

/-- The count of an operand is that of the argument it becomes. -/
theorem Operand.count?_argument {o : Operand} (ho : ∀ c, o = .character c → c.toNat < 128)
    (t : SymbolTable) :
  (o.argument t).count?.map UInt16.toNat = o.count?
  := by
  cases o with
  | decimal n =>
      rw [argument, Argument.count?, Literal.count?, count?]
      split
      · next hn =>
        have hlt : n.toInt.toNat < 65536 := by omega
        rw [Option.map_some, UInt16.toNat_ofNat', Nat.mod_eq_of_lt hlt]
      · rfl
  | hexadecimal n => rfl
  | character c =>
      have hlt : c.toNat < 128 := ho c rfl
      have hcode : (UInt8.ofNat c.toNat).toNat = c.toNat := by
        rw [UInt8.toNat_ofNat', Nat.mod_eq_of_lt (by omega)]
      rw [argument, Argument.count?, Literal.count?, count?, Option.map_some,
        UInt8.toNat_toUInt16, hcode]
  | text value => rfl
  | symbol name => rfl

theorem Operand.ascii_of_not_fault {number : Nat} {o : Operand} (ho : ∀ e, ¬ o.Fault number e) :
  ∀ c, o = .character c → c.toNat < 128
  := by
  rintro c rfl
  apply Nat.lt_of_not_le
  intro hc
  apply ho _ (.nonAsciiCharacter hc)

/-- A check of the argument that an operand becomes reports the operand first. -/
theorem Operand.lower_check_eq_error_iff {number : Nat} {o : Operand} {t : SymbolTable}
    {e cause : DocumentError} {kind : Argument → LineKind} {passes : Argument → Prop}
    [DecidablePred passes] {passed : Prop}
    (hpasses : (∀ e, ¬ o.Fault number e) → ∀ t, passes (o.argument t) ↔ passed) :
  (o.lower number >>= fun a => if passes a then pure (kind a) else throw cause).run t = .error e
    ↔ o.Fault number e ∨ (∀ e, ¬ o.Fault number e) ∧ ¬ passed ∧ e = cause
  := by
  rw [Lowering.run_bind_eq_error_iff, o.lower_eq_error_iff]
  apply or_congr_right
  constructor
  · rintro ⟨a, u, hrun, h⟩
    have ho : ∀ e, ¬ o.Fault number e := by
      intro e' he'
      rw [← o.lower_eq_error_iff (t := t), hrun] at he'
      cases he'
    obtain rfl := (o.translates_lower number).result hrun u (.refl u)
    split at h
    · cases h
    · next hnot =>
      cases h
      exact ⟨ho, mt (hpasses ho u).mpr hnot, rfl⟩
  · rintro ⟨ho, hnot, rfl⟩
    cases hrun : (o.lower number).run t with
    | error e' => cases ho e' (o.lower_eq_error_iff.mp hrun)
    | ok result =>
        obtain ⟨a, u⟩ := result
        obtain rfl := (o.translates_lower number).result hrun u (.refl u)
        refine ⟨_, u, rfl, ?_⟩
        rw [if_neg (mt (hpasses ho u).mp hnot)]
        rfl

theorem Operand.mem_count?_argument {o : Operand} (ho : ∀ c, o = .character c → c.toNat < 128)
    (t : SymbolTable) :
  (o.argument t).count? ∈ [some 1, some 2, some 4, some 8]
    ↔ o.count? ∈ [some 1, some 2, some 4, some 8]
  := by
  have hinj : Function.Injective (Option.map UInt16.toNat) :=
    Option.map_injective fun _ _ => UInt16.toNat_inj.mp
  rw [← count?_argument ho t, ← List.mem_map_of_injective hinj]
  rfl

theorem Operand.isSome_count?_argument {o : Operand}
    (ho : ∀ c, o = .character c → c.toNat < 128) (t : SymbolTable) :
  (o.argument t).count?.isSome ↔ o.count?.isSome
  := by
  rw [← count?_argument ho t, Option.isSome_map]

/-! ### Flags -/

theorem Flags.add?_eq_none_iff {f : Flags} {c : Char} :
  f.add? c = none ↔ c.toLower ∉ letters
  := by
  rw [add?]
  split
  · next h => simp [h, letters]
  · next h => simp [h, letters]
  · next h => simp [h, letters]
  · next h => simp [h, letters]
  · next hr hw hx hz =>
    simp only [letters, List.mem_cons, List.not_mem_nil, or_false, not_or, true_iff]
    exact ⟨hr, hw, hx, hz⟩

theorem Flags.foldlM_add?_eq_none_iff {f : Flags} {cs : List Char} :
  cs.foldlM add? f = none ↔ ∃ c ∈ cs, c.toLower ∉ letters
  := by
  induction cs generalizing f with
  | nil => simp [pure]
  | cons c cs ih =>
      rw [List.foldlM_cons]
      simp only [List.mem_cons, or_and_right, exists_or, exists_eq_left]
      rw [← add?_eq_none_iff (f := f)]
      cases f.add? c with
      | none => simp
      | some g =>
          rw [← ih (f := g)]
          simp

theorem Flags.parse?_eq_none_iff {flags : String} :
  Flags.parse? flags = none ↔ HasOtherLetter flags
  := foldlM_add?_eq_none_iff

/-! ### The first invalid line -/

theorem Operation.lower_plain_eq_error_iff {number : Nat} {op : Operation} {o : Operand}
    {kind : Argument → LineKind} {t : SymbolTable} {e : DocumentError}
    (hop : op.argument? = some o) (hplain : op.isPlain) :
  (o.lower number >>= fun a => pure (kind a)).run t = .error e ↔ op.Fault number e
  := by
  rw [Lowering.run_map_eq_error_iff, o.lower_eq_error_iff, fault_iff_of_isPlain hop hplain]

/-- A line is reported for its faults, whatever is in the table. -/
theorem Operation.lower_eq_error_iff {number : Nat} {op : Operation} {t : SymbolTable}
    {e : DocumentError} :
  (op.lower number).run t = .error e ↔ op.Fault number e
  := by
  cases op with
  | unary m =>
      rw [lower, fault_unary_iff]
      split
      · next hm => simp only [Lowering.run_pure_ne_error, hm, not_true, false_and]
      · next hm => rw [Lowering.run_throw_eq_error_iff, and_iff_right hm]
  | nonUnary m o mode =>
      rw [lower, fault_nonUnary_iff]
      split
      · apply Lowering.run_throw_eq_error_iff
      · rw [Lowering.run_map_eq_error_iff, o.lower_eq_error_iff]
  | align o =>
      have hpasses (ho : ∀ e, ¬ o.Fault number e) := o.mem_count?_argument (o.ascii_of_not_fault ho)
      apply (o.lower_check_eq_error_iff hpasses).trans fault_align_iff.symm
  | block o =>
      have hpasses (ho : ∀ e, ¬ o.Fault number e) :=
        o.isSome_count?_argument (o.ascii_of_not_fault ho)
      rw [fault_block_iff, ← Option.not_isSome_iff_eq_none]
      apply o.lower_check_eq_error_iff hpasses
  | opening name flags =>
      rw [lower, fault_opening_iff, ← Flags.parse?_eq_none_iff]
      split
      · next hparsed =>
        simp only [Lowering.run_pure_ne_error, hparsed, reduceCtorEq, false_and]
      · next hnone => simp only [Lowering.run_throw_eq_error_iff, hnone, true_and]
  | byte o => apply lower_plain_eq_error_iff rfl rfl
  | word o => apply lower_plain_eq_error_iff rfl rfl
  | equate o => apply lower_plain_eq_error_iff rfl rfl
  | org o => apply lower_plain_eq_error_iff rfl rfl
  | burn o => apply lower_plain_eq_error_iff rfl rfl
  | _ =>
      constructor
      · intro h
        cases h
      · intro h
        cases h with
        | operand hop _ _ => cases hop

theorem SourceLine.lower_eq_error_iff {number : Nat} {s : SourceLine} {t : SymbolTable}
    {e : DocumentError} :
  (s.lower number).run t = .error e ↔ s.operation.Fault number e
  := by
  rw [lower, Lowering.run_bind_eq_error_iff, s.operation.lower_eq_error_iff]
  apply or_iff_left
  rintro ⟨kind, u, -, h⟩
  cases hs : s.symbol? with
  | none =>
      rw [hs] at h
      cases h
  | some name =>
      rw [hs] at h
      cases h

theorem SourceLine.exists_lower_eq_ok_iff {number : Nat} {s : SourceLine} {t : SymbolTable} :
  (∃ l u, (s.lower number).run t = .ok (l, u)) ↔ ¬ s.operation.Invalid
  := by
  rw [s.operation.invalid_iff number]
  simp only [← s.lower_eq_error_iff (t := t)]
  cases (s.lower number).run t with
  | error e => simp
  | ok result =>
      obtain ⟨l, u⟩ := result
      simp

/-- The first invalid line is reported, and no other. -/
theorem lowerLines_eq_error_iff {number : Nat} {lines : List SourceLine} {t : SymbolTable}
    {e : DocumentError} :
  (lowerLines number lines).run t = .error e
    ↔ ∃ before s after, lines = before ++ s :: after
      ∧ (∀ s' ∈ before, ¬ s'.operation.Invalid)
      ∧ s.operation.Fault (number + before.length) e
  := by
  induction lines generalizing number t with
  | nil =>
      constructor
      · intro h
        cases h
      · rintro ⟨before, s, after, hlines, -⟩
        simp at hlines
  | cons s lines ih =>
      rw [lowerLines, Lowering.run_bind_eq_error_iff, s.lower_eq_error_iff]
      simp only [Lowering.run_map_eq_error_iff, ih]
      constructor
      · rintro (h | ⟨l, u, hs, before, s', after, rfl, hbefore, h⟩)
        · exact ⟨[], s, lines, rfl, by simp, h⟩
        · refine ⟨s :: before, s', after, rfl, ?_, ?_⟩
          · rw [List.forall_mem_cons]
            exact ⟨SourceLine.exists_lower_eq_ok_iff.mp ⟨l, u, hs⟩, hbefore⟩
          · rw [List.length_cons, Nat.add_comm before.length, ← Nat.add_assoc]
            apply h
      · rintro ⟨before, s', after, hlines, hbefore, h⟩
        cases before with
        | nil =>
            cases hlines
            left
            apply h
        | cons s'' before =>
            cases hlines
            right
            rw [List.forall_mem_cons] at hbefore
            obtain ⟨l, u, hs⟩ := SourceLine.exists_lower_eq_ok_iff.mpr hbefore.1
            refine ⟨l, u, hs, before, s', after, rfl, hbefore.2, ?_⟩
            rw [List.length_cons, Nat.add_comm before.length, ← Nat.add_assoc] at h
            apply h

/-- What some item satisfies, a first one does. -/
theorem exists_mem_iff_exists_first {α : Type} {P : α → Prop} {xs : List α} :
  (∃ x ∈ xs, P x)
    ↔ ∃ before x after, xs = before ++ x :: after ∧ (∀ y ∈ before, ¬ P y) ∧ P x
  := by
  classical
  constructor
  · rintro ⟨x, hx, hP⟩
    have hsome : (xs.find? (P ·)).isSome :=
      List.find?_isSome.mpr ⟨x, hx, decide_eq_true hP⟩
    obtain ⟨y, hy⟩ := Option.isSome_iff_exists.mp hsome
    obtain ⟨hPy, before, after, rfl, hbefore⟩ := List.find?_eq_some_iff_append.mp hy
    refine ⟨before, y, after, rfl, ?_, of_decide_eq_true hPy⟩
    intro z hz
    simpa using hbefore z hz
  · rintro ⟨before, x, after, rfl, -, hP⟩
    exact ⟨x, List.mem_append_cons_self, hP⟩

theorem Document.lower_eq_error_iff {d : Document} {id : TableId} {e : DocumentError} :
  d.lower id = .error e
    ↔ ∃ before s after, d.lines = before ++ s :: after
      ∧ (∀ s' ∈ before, ¬ s'.operation.Invalid)
      ∧ s.operation.Fault (before.length + 1) e
  := by
  rw [lower, Except.bind_eq_error_iff, lowerLines_eq_error_iff]
  simp only [Nat.add_comm 1]
  apply or_iff_left
  rintro ⟨⟨program, symbols⟩, -, h⟩
  cases h

/-- A document is lowered unless a line is invalid. -/
theorem Document.exists_lower_eq_error_iff {d : Document} {id : TableId} :
  (∃ e, d.lower id = .error e) ↔ ∃ s ∈ d.lines, s.operation.Invalid
  := by
  simp only [lower_eq_error_iff, exists_mem_iff_exists_first]
  constructor
  · rintro ⟨e, before, s, after, hlines, hbefore, h⟩
    exact ⟨before, s, after, hlines, hbefore, (s.operation.invalid_iff _).mpr ⟨e, h⟩⟩
  · rintro ⟨before, s, after, hlines, hbefore, hinvalid⟩
    obtain ⟨e, h⟩ := (s.operation.invalid_iff (before.length + 1)).mp hinvalid
    exact ⟨e, before, s, after, hlines, hbefore, h⟩

end Pep10
