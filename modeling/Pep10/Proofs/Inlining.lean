import Pep10.Proofs.Aliases
import Pep10.Proofs.Exchange

/-!
# Constants in place of their names

A symbol that an `.EQUATE` makes a constant can be replaced by the constant in the operand of an
instruction or of data.  No layout notices, and in two bytes the name and the constant are written
alike.  In one byte they need not be: the name stands for a number of two bytes, and that number
has to fit, whereas the constant is read as a number of one byte.  They differ for the decimals
from -128 to -1, which are refused by name, and for texts of two bytes of which the first is zero,
which are refused in place of the name.
-/

namespace Pep10

/-! ### Constants -/

namespace Program

/-- The only line that declares a symbol is an `.EQUATE` of a literal. -/
def Defines (program : Program) (k : SymbolId) (literal : Literal) : Prop :=
  (program.filter (·.symbol? = some k)).map (·.kind) = [.equate (.literal literal)]

variable {program : Program} {k : SymbolId} {literal : Literal}

theorem defines_iff :
  program.Defines k literal
    ↔ ∃ d, program.numbered.filter (·.line.symbol? = some k) = [d]
      ∧ d.line.kind = .equate (.literal literal)
  := by
  rw [Defines]
  conv_lhs => rw [← program.map_line_numbered, List.filter_map, List.map_map]
  exact List.map_eq_singleton_iff

theorem Defines.setOperand (h : program.Defines k literal) (j : LineId) (a : Argument) :
  (program.setOperand j a).Defines k literal
  := by
  obtain ⟨d, hd, hkind⟩ := defines_iff.mp h
  apply defines_iff.mpr
  use d.relabel (.setOperand j a)
  rw [numbered_setOperand, List.filter_map, NumberedLine.kind_relabel_eq_equate_iff]
  refine ⟨?_, hkind⟩
  rw [← List.map_singleton, ← hd]
  congr 1
  apply List.filter_congr
  intro l _
  rw [Function.comp_apply, NumberedLine.symbol?_relabel]

end Program

section

variable {program : Program} {symbols : SymbolTable} {options : Options} {a : Assembly}
  {k : SymbolId} {literal : Literal}

/-- The only line that declares a symbol makes its only definition. -/
theorem definition_unique {initial : Heading} {sections laid : List Section} {base : UInt16}
    (hsections : program.sections symbols initial = .ok sections)
    (hassign : (assign symbols.id sections base).outcome = .ok laid) {p : Placement}
    (hp : p ∈ (assign symbols.id sections base).placements) {d : Definition}
    (hd : p.definition? = some d)
    (honly : ∀ l ∈ program.numbered, l.line.symbol? = some d.symbol → l = p.line) :
  ∀ d' ∈ (assign symbols.id sections base).placements.filterMap (·.definition?),
    d'.symbol = d.symbol → d' = d
  := by
  intro d' hd' hsymbol
  have hlines := assign_lines_perm hsections hassign
  obtain ⟨p', hp', hdefinition⟩ := List.mem_filterMap.mp hd'
  obtain ⟨pass, next, hplace⟩ := exists_place_of_mem_assign p' hp'
  have hdeclares : p'.line.line.symbol? = some d.symbol := by
    rw [← Pass.symbol_of_place hplace, hdefinition, Option.map_some, hsymbol]
  have hnumbered : p'.line ∈ program.numbered := by
    apply (Program.sectionOrder_perm hsections).mem_iff.mp
    apply hlines.mem_iff.mp (List.mem_map_of_mem hp')
  -- the line is placed once
  have hnodup : ((assign symbols.id sections base).placements.map (·.line)).Nodup :=
    hlines.nodup_iff.mpr (.of_map _ (Program.nodup_sectionOrder hsections))
  obtain rfl := List.inj_on_of_nodup_map hnodup hp' hp (honly _ hnumbered hdeclares)
  apply Option.some_inj.mp (hdefinition.symm.trans hd)

/-- A symbol with one `.EQUATE` stands for the literal as a number of two bytes. -/
theorem resolveRef_of_defines (h : program.Defines k literal)
    (ha : (assemble program symbols options).outcome = .ok a) :
  ∃ v, literal.value 2 = .ok v
    ∧ (assemble program symbols options).symbols.resolveRef (symbols.ref k) options.linked
      = some v
  := by
  obtain ⟨d, hd, hkind⟩ := Program.defines_iff.mp h
  have hmem : ∀ {l}, l ∈ program.numbered ∧ l.line.symbol? = some k ↔ l = d := by
    intro l
    rw [← List.mem_singleton (a := l), ← hd, List.mem_filter, decide_eq_true_eq]
  obtain ⟨hnumbered, hsymbol⟩ := hmem.mpr rfl
  obtain ⟨i, s, hs, hl⟩ := exists_section_of_mem_numbered ha hnumbered
  obtain ⟨sections, hsections, hassign, -, -, hfinal⟩ := exists_layout_of_assemble ha
  obtain ⟨p, hp, rfl, direction, next, hplace⟩ :=
    exists_place_of_mem_section hsections hassign hs hl
  obtain ⟨value, hvalue, hdefinition⟩ := Pass.definition_of_equate hplace hkind hsymbol
  obtain ⟨v, hv, rfl⟩ := equateValue_literal_eq_ok_iff.mp hvalue
  obtain ⟨e, he⟩ := get?_of_definition hsections hassign
    (List.mem_filterMap.mpr ⟨p, hp, hdefinition⟩)
    (definition_unique hsections hassign hp hdefinition fun l hl hk => hmem.mp ⟨hl, hk⟩)
  have hget : (assemble program symbols options).symbols.value? k
      = some (.constant (.word v)) := by
    rw [hfinal, SymbolTable.value?, he]
    rfl
  have hnumber := (Assembly.Gives.constant (a := a) hkind
    (Argument.constant_literal_eq_ok_iff.mpr hv)).number?_eq
  use v, hv
  rw [resolveRef_ref ha, (SymbolTable.Points.refl k).resolve_eq hget hnumber,
    if_pos (Nat.zero_le _)]

end

/-! ### Constants in one byte -/

theorem le_toNat_ofBigEndian {b c : UInt8} (h : b ≠ 0) :
  256 ≤ (ofBigEndian [b, c]).toNat
  := by
  have hb : b.toNat ≠ 0 := by
    intro hb
    apply h (UInt8.toNat_inj.mp hb)
  have hone : (ofBigEndian [b]).toNat = b.toNat := by
    simp [ofBigEndian]
  have hlt : (ofBigEndian [b]).toNat < capacity [b].length := toNat_ofBigEndian_lt (by simp)
  have htwo : (ofBigEndian ([b] ++ [c])).toNat = _ := toNat_ofBigEndian_concat (by simp) hlt
  rw [List.singleton_append, hone] at htwo
  omega

namespace Literal

/-- A number that is negative as a byte.  In two bytes it has other digits. -/
def IsNegativeByte : Literal → Prop
  | .decimal n => -128 ≤ n.toInt ∧ n.toInt < 0
  | _ => False

/-- A text of two bytes whose value fits in one. -/
def IsPaddedByte : Literal → Prop
  | .text bytes => bytes.length = 2 ∧ bytes.head? = some 0
  | _ => False

variable {l : Literal} {v w : UInt64}

theorem le_value_of_isNegativeByte (h : l.IsNegativeByte) (hv : l.value 2 = .ok v) :
  256 ≤ v.toNat
  := by
  cases l with
  | decimal n =>
      obtain ⟨hle, hlt⟩ := h
      rw [value_decimal (by decide) (by decide)] at hv
      split at hv
      · cases hv
      · cases hv
        have hmod : (n.toInt % (capacity 2 : Int)).toNat = (65536 + n.toInt).toNat := by
          have hcapacity : (capacity 2 : Int) = 65536 := rfl
          rw [hcapacity]
          omega
        rw [show (2 : UInt8).toNat = 2 from rfl, hmod, UInt64.toNat_ofNat']
        omega
  | _ => cases h

theorem value_one_ne_ok_of_isPaddedByte (h : l.IsPaddedByte) :
  l.value 1 ≠ .ok w
  := by
  cases l with
  | text bytes =>
      have hlength : (1 : UInt8).toNat < bytes.length := by
        rw [h.1]
        decide
      rw [value, if_pos hlength]
      simp
  | _ => cases h

/-- Other literals either have the same value in one byte, or a number of two bytes that is too
large. -/
theorem value_one_cases (hnegative : ¬ l.IsNegativeByte) (hpadded : ¬ l.IsPaddedByte)
    (hv : l.value 2 = .ok v) :
  l.value 1 = .ok v ∨ (∀ w, l.value 1 ≠ .ok w) ∧ 256 ≤ v.toNat
  := by
  have hone : capacity (1 : UInt8).toNat = 256 := rfl
  have htwo : capacity (2 : UInt8).toNat = 65536 := rfl
  cases l with
  | decimal n =>
      rw [IsNegativeByte] at hnegative
      rw [value_decimal (by decide) (by decide), htwo] at hv
      rw [value_decimal (by decide) (by decide), hone]
      split at hv
      · cases hv
      · next hrange =>
        cases hv
        by_cases hn : 0 ≤ n.toInt ∧ n.toInt < 256
        · left
          rw [if_neg (by omega)]
          congr 3
          omega
        · right
          rw [if_pos (by omega), UInt64.toNat_ofNat']
          constructor
          · simp
          · omega
  | hexadecimal n =>
      rw [value_hexadecimal (by decide) (by decide), htwo] at hv
      rw [value_hexadecimal (by decide) (by decide), hone]
      split at hv
      · cases hv
      · cases hv
        by_cases hn : 256 ≤ n.toNat
        · right
          rw [if_pos hn, UInt16.toNat_toUInt64]
          constructor
          · simp
          · apply hn
        · left
          rw [if_neg hn]
  | character code =>
      left
      apply hv
  | text bytes =>
      rw [IsPaddedByte] at hpadded
      rw [value] at hv ⊢
      split at hv
      · cases hv
      · next hlength =>
        cases hv
        by_cases hlong : (1 : UInt8).toNat < bytes.length
        · right
          rw [if_pos hlong]
          constructor
          · simp
          · obtain ⟨b, c, rfl⟩ : ∃ b c, bytes = [b, c] := by
              apply List.length_eq_two.mp
              apply Nat.le_antisymm (Nat.le_of_not_lt hlength) hlong
            apply le_toNat_ofBigEndian
            rintro rfl
            apply hpadded ⟨rfl, rfl⟩
        · left
          rw [if_neg hlong]

/-- In one byte, other literals are written as the numbers they are in two bytes. -/
theorem value_one_eq_ok_iff (hnegative : ¬ l.IsNegativeByte) (hpadded : ¬ l.IsPaddedByte)
    (hv : l.value 2 = .ok v) (hw : w.toNat < 256) :
  l.value 1 = .ok w ↔ w = v
  := by
  obtain hone | ⟨hone, hle⟩ := value_one_cases hnegative hpadded hv
  · rw [hone, Except.ok.injEq, eq_comm]
  · constructor
    · intro h
      cases hone w h
    · rintro rfl
      omega

end Literal

/-- A name and its constant are written alike, but for the two kinds of literals in one byte. -/
theorem alike_of_resolve {resolve : SymbolRef → Option UInt64} {width : UInt8} {l : Literal}
    {name : String} {r : SymbolRef} {v : UInt64} (hr : resolve r = some v)
    (hv : l.value 2 = .ok v) (hwidth : width = 1 ∨ width = 2)
    (hplain : width = 1 → ¬ l.IsNegativeByte ∧ ¬ l.IsPaddedByte) :
  (Argument.symbolic name r).Alike resolve width (.literal l)
  where
  pending?_eq := by
    rw [Argument.pending?, Argument.pending?, hr, if_neg (Option.some_ne_none v)]
  hasValue_iff w hw := by
    rw [Argument.hasValue_symbolic_iff, Argument.hasValue_literal_iff, hr, Option.getD_some]
    obtain rfl | rfl := hwidth
    · apply Literal.value_one_eq_ok_iff (hplain rfl).1 (hplain rfl).2 hv hw
    · rw [hv, Except.ok.injEq, eq_comm]

/-- A constant in place of its name makes no difference to addresses and object code.  The
exceptions are bytes that are stored: a number from -128 to -1 is refused by name, and a text of a
zero and another byte is refused in place of its name. -/
theorem result?_setOperand_constant {program : Program} {symbols : SymbolTable}
    {options : Options} {j : LineId} {l : Line} {offset : Nat} {width : UInt8} {name : String}
    {k : SymbolId} {literal : Literal} (hl : program[j]? = some l)
    (hoperand : l.kind.operand? = some (offset, width, .symbolic name (symbols.ref k)))
    (hdefines : program.Defines k literal) :
  (width = 1 ∧ program.StoresLine options.initial j ∧ literal.IsNegativeByte →
      result? program symbols options = none)
    ∧ (width = 1 ∧ program.StoresLine options.initial j ∧ literal.IsPaddedByte →
      result? (program.setOperand j (.literal literal)) symbols options = none)
    ∧ (¬ (width = 1 ∧ program.StoresLine options.initial j
        ∧ (literal.IsNegativeByte ∨ literal.IsPaddedByte)) →
      result? (program.setOperand j (.literal literal)) symbols options
        = result? program symbols options)
  := by
  have hl' := Program.getElem?_setOperand hl (.literal literal)
  have hoperand' := LineKind.operand?_setOperand hoperand (.literal literal)
  have hdefines' := hdefines.setOperand j (.literal literal)
  refine ⟨?_, ?_, ?_⟩
  · rintro ⟨rfl, hstores, hnegative⟩
    apply result?_eq_none_iff.mpr
    intro a ha
    obtain ⟨v, hv, hresolve⟩ := resolveRef_of_defines hdefines ha
    obtain ⟨w, hw, hlt⟩ := exists_hasValue_of_storesLine ha hl hoperand hstores
    rw [Argument.hasValue_symbolic_iff, hresolve, Option.getD_some] at hw
    have hle := Literal.le_value_of_isNegativeByte hnegative hv
    rw [hw] at hlt
    apply Nat.not_lt_of_le hle hlt
  · rintro ⟨rfl, hstores, hpadded⟩
    apply result?_eq_none_iff.mpr
    intro b hb
    rw [← program.storesLine_setOperand j (.literal literal)] at hstores
    obtain ⟨w, hw, -⟩ := exists_hasValue_of_storesLine hb hl' hoperand' hstores
    rw [Argument.hasValue_literal_iff] at hw
    apply Literal.value_one_ne_ok_of_isPaddedByte hpadded hw
  · intro hplain
    have halike : ∀ {resolve : SymbolRef → Option UInt64} {v : UInt64},
        program.StoresLine options.initial j → literal.value 2 = .ok v →
        resolve (symbols.ref k) = some v →
        (Argument.symbolic name (symbols.ref k)).Alike resolve width (.literal literal) := by
      intro resolve v hstores hv hresolve
      apply alike_of_resolve hresolve hv (LineKind.width_eq hoperand)
      intro hone
      constructor
      · intro hnegative
        apply hplain ⟨hone, hstores, .inl hnegative⟩
      · intro hpadded
        apply hplain ⟨hone, hstores, .inr hpadded⟩
    apply result?_setOperand_of_alike hl hoperand
    · intro a ha hstores
      obtain ⟨v, hv, hresolve⟩ := resolveRef_of_defines hdefines ha
      apply halike hstores hv hresolve
    · intro b hb hstores
      obtain ⟨v, hv, hresolve⟩ := resolveRef_of_defines hdefines' hb
      apply halike hstores hv hresolve

/-- A program with a byte that names a constant. -/
def Program.naming (literal : Literal) : Program :=
  [{ kind := .data .byte (.symbolic "k" ⟨0, 0⟩) },
    { kind := .equate (.literal literal), symbol? := some 0 }]

/-- The symbols of the program `naming`. -/
def SymbolTable.naming : SymbolTable where
  id := 0
  entries := [{ name := "k", state := .single }]

theorem Program.operand?_naming (literal : Literal) :
  ∃ l, (Program.naming literal)[0]? = some l
    ∧ l.kind.operand? = some (0, 1, .symbolic "k" (SymbolTable.naming.ref 0))
  := ⟨_, rfl, rfl⟩

theorem Program.defines_naming (literal : Literal) :
  (Program.naming literal).Defines 0 literal
  := by
  rw [Defines]
  rfl

theorem Program.storesLine_naming (literal : Literal) :
  (Program.naming literal).StoresLine .text 0
  := by
  have houtline : outline .text (Program.naming literal).numbered
      = [{ toHeading := .text, lines := (Program.naming literal).numbered }] := rfl
  rw [StoresLine, houtline]
  have hzeroed : ¬ Heading.text.flags.zeroed := by decide
  exact ⟨_, List.mem_singleton_self _, hzeroed, List.mem_cons_self⟩

theorem buffers_naming :
  (result? (.naming (.character 0x41)) .naming {}).map (·.2.buffers) = some [[0x41]]
    ∧ (result? (.naming (.text [0, 0x41])) .naming {}).map (·.2.buffers) = some [[0x41]]
    ∧ (result? ((Program.naming (.decimal (-1))).setOperand 0 (.literal (.decimal (-1)))) .naming
      {}).map (·.2.buffers) = some [[0xFF]]
  := by
  refine ⟨?_, ?_, ?_⟩
  · cbv
  · cbv
  · cbv

/-- A character can stand in place of its name, minus one cannot be named in a byte, and a text of
a zero and a character can only be named. -/
theorem result?_setOperand_constant_naming :
  (result? (.naming (.character 0x41)) .naming {}).map (·.2.buffers) = some [[0x41]]
    ∧ result? ((Program.naming (.character 0x41)).setOperand 0 (.literal (.character 0x41)))
      .naming {} = result? (.naming (.character 0x41)) .naming {}
    ∧ result? (.naming (.decimal (-1))) .naming {} = none
    ∧ result? ((Program.naming (.text [0, 0x41])).setOperand 0 (.literal (.text [0, 0x41])))
      .naming {} = none
  := by
  have hstores := Program.storesLine_naming
  refine ⟨buffers_naming.1, ?_, ?_, ?_⟩
  · obtain ⟨l, hl, hoperand⟩ := Program.operand?_naming (.character 0x41)
    apply (result?_setOperand_constant hl hoperand (Program.defines_naming _)).2.2
    rintro ⟨-, -, h | h⟩
    · cases h
    · cases h
  · obtain ⟨l, hl, hoperand⟩ := Program.operand?_naming (.decimal (-1))
    apply (result?_setOperand_constant hl hoperand (Program.defines_naming _)).1
    exact ⟨rfl, hstores _, by decide, by decide⟩
  · obtain ⟨l, hl, hoperand⟩ := Program.operand?_naming (.text [0, 0x41])
    apply (result?_setOperand_constant hl hoperand (Program.defines_naming _)).2.1
    exact ⟨rfl, hstores _, rfl, rfl⟩

/-- A byte can hold minus one, but not the number that a name for minus one stands for. -/
theorem not_forall_result?_setOperand_constant :
  ¬ ∀ (program : Program) (symbols : SymbolTable) (options : Options) (j : LineId) (l : Line)
    (offset : Nat) (width : UInt8) (name : String) (k : SymbolId) (literal : Literal),
    program[j]? = some l →
    l.kind.operand? = some (offset, width, .symbolic name (symbols.ref k)) →
    program.Defines k literal →
    result? (program.setOperand j (.literal literal)) symbols options
      = result? program symbols options
  := by
  intro h
  obtain ⟨l, hl, hoperand⟩ := Program.operand?_naming (.decimal (-1))
  have hequal := h _ .naming {} 0 l 0 1 "k" 0 _ hl hoperand (Program.defines_naming _)
  have hnone : result? (.naming (.decimal (-1))) .naming {} = none := by cbv
  have hsome := buffers_naming.2.2
  rw [hequal, hnone] at hsome
  cases hsome

end Pep10
