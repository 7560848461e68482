import Pep10.ObjectCode
import Pep10.Proofs.Layout.Walk
import Mathlib.Data.List.Induction
import Mathlib.Tactic.Ring

/-!
# Encodings

What the bytes of a line are.  An operand is written with the digits of its value in base 256, the
most significant first, and no digit is lost: a value that needs more of them is refused.  A
symbol without a value is written as zero, and is pending.
-/

namespace Pep10

/-! ### Digits in base 256 -/

theorem capacity_eq (n : Nat) :
  capacity n = 256 ^ n
  := by
  induction n with
  | zero => rfl
  | succ n ih => rw [capacity, ih, pow_succ, mul_comm]

theorem capacity_pos (n : Nat) :
  0 < capacity n
  := by
  rw [capacity_eq]
  apply Nat.pow_pos (by omega)

theorem capacity_eq_two_pow (n : Nat) :
  capacity n = 2 ^ (8 * n)
  := by
  rw [capacity_eq, pow_mul]
  rfl

theorem capacity_mono {n m : Nat} (h : n ≤ m) :
  capacity n ≤ capacity m
  := by
  rw [capacity_eq, capacity_eq]
  apply Nat.pow_le_pow_right (by omega) h

theorem capacity_le {n : Nat} (h : n ≤ 7) :
  capacity n ≤ 2 ^ 56
  := by
  apply (capacity_mono h).trans_eq
  rfl

@[simp]
theorem length_toBigEndian (n : Nat) (v : UInt64) :
  (toBigEndian n v).length = n
  := by
  induction n generalizing v with
  | zero => rfl
  | succ n ih => rw [toBigEndian, List.length_append, ih, List.length_singleton]

theorem toBigEndian_zero (n : Nat) :
  toBigEndian n 0 = List.replicate n 0
  := by
  induction n with
  | zero => rfl
  | succ n ih => rw [toBigEndian, UInt64.zero_shiftRight, ih, List.replicate_succ']; rfl

theorem ofBigEndian_concat (bytes : List UInt8) (b : UInt8) :
  ofBigEndian (bytes ++ [b]) = 256 * ofBigEndian bytes + b.toUInt64
  := by
  rw [ofBigEndian, List.foldl_append]
  show ofBigEndian bytes <<< 8 ||| b.toUInt64 = _
  apply UInt64.toNat_inj.mp
  -- the low bits are free after the shift, so that joining the byte adds it
  have hb := b.toNat_lt
  have hor := Nat.shiftLeft_add_eq_or_of_lt hb ((ofBigEndian bytes).toNat % 2 ^ 56)
  have hshift : (ofBigEndian bytes <<< 8).toNat = ((ofBigEndian bytes).toNat % 2 ^ 56) <<< 8 := by
    have hamount : (8 : UInt64).toNat % 64 = 8 := rfl
    rw [UInt64.toNat_shiftLeft, hamount, Nat.shiftLeft_eq, Nat.shiftLeft_eq]
    omega
  rw [UInt64.toNat_or, UInt8.toNat_toUInt64, hshift, ← hor]
  simp only [UInt64.toNat_add, UInt64.toNat_mul, UInt8.toNat_toUInt64, UInt64.toNat_ofNat,
    Nat.shiftLeft_eq]
  omega

theorem toNat_shiftRight_eight (v : UInt64) :
  (v >>> 8).toNat = v.toNat / 256
  := by
  simp [UInt64.toNat_shiftRight, Nat.shiftRight_eq_div_pow]

theorem ofBigEndian_toBigEndian {n : Nat} {v : UInt64} (h : v.toNat < capacity n) :
  ofBigEndian (toBigEndian n v) = v
  := by
  induction n generalizing v with
  | zero =>
      apply UInt64.toNat_inj.mp
      rw [capacity] at h
      rw [Nat.lt_one_iff.mp h]
      rfl
  | succ n ih =>
      have hshift := toNat_shiftRight_eight v
      rw [capacity] at h
      rw [toBigEndian, ofBigEndian_concat, ih (by omega)]
      apply UInt64.toNat_inj.mp
      have := v.toNat_lt
      simp [UInt64.toNat_add, UInt64.toNat_mul, hshift]
      omega

/-- Up to eight bytes the last digit is added without overflow. -/
theorem toNat_ofBigEndian_concat {bytes : List UInt8} {b : UInt8} (h : bytes.length < 8)
    (hlt : (ofBigEndian bytes).toNat < capacity bytes.length) :
  (ofBigEndian (bytes ++ [b])).toNat = 256 * (ofBigEndian bytes).toNat + b.toNat
  := by
  have hcapacity : capacity bytes.length ≤ 256 ^ 7 := by
    rw [capacity_eq]
    apply Nat.pow_le_pow_right
    · omega
    · omega
  have := b.toNat_lt
  simp only [ofBigEndian_concat, UInt64.toNat_add, UInt64.toNat_mul, UInt8.toNat_toUInt64,
    UInt64.toNat_ofNat]
  omega

theorem toNat_ofBigEndian_lt {bytes : List UInt8} (h : bytes.length ≤ 8) :
  (ofBigEndian bytes).toNat < capacity bytes.length
  := by
  induction bytes using List.reverseRecOn with
  | nil => decide
  | append_singleton bytes b ih =>
      rw [List.length_append, List.length_singleton] at h ⊢
      have hlt := ih (by omega)
      have := b.toNat_lt
      rw [toNat_ofBigEndian_concat (by omega) hlt, capacity]
      omega

theorem toBigEndian_ofBigEndian {bytes : List UInt8} (h : bytes.length ≤ 8) :
  toBigEndian bytes.length (ofBigEndian bytes) = bytes
  := by
  induction bytes using List.reverseRecOn with
  | nil => rfl
  | append_singleton bytes b ih =>
      rw [List.length_append, List.length_singleton] at h ⊢
      have hlength : bytes.length < 8 := h
      have hnat := toNat_ofBigEndian_concat (b := b) hlength (toNat_ofBigEndian_lt hlength.le)
      have hb := b.toNat_lt
      have hhigh : ofBigEndian (bytes ++ [b]) >>> 8 = ofBigEndian bytes := by
        apply UInt64.toNat_inj.mp
        rw [toNat_shiftRight_eight, hnat]
        omega
      have hlow : (ofBigEndian (bytes ++ [b])).toUInt8 = b := by
        apply UInt8.toNat_inj.mp
        simp [hnat]
      rw [toBigEndian, hhigh, hlow, ih hlength.le]

/-- The digits of a number, when there are no more than `n` of them. -/
structure Digits (n : Nat) (v : UInt64) (bytes : List UInt8) : Prop where
  length_eq : bytes.length = n
  value_eq : ofBigEndian bytes = v

theorem digits_iff {n : Nat} (hn : n ≤ 8) {v : UInt64} {bytes : List UInt8} :
  Digits n v bytes ↔ v.toNat < capacity n ∧ bytes = toBigEndian n v
  := by
  constructor
  · rintro ⟨rfl, rfl⟩
    use toNat_ofBigEndian_lt hn, (toBigEndian_ofBigEndian hn).symm
  · rintro ⟨hlt, rfl⟩
    use length_toBigEndian n v, ofBigEndian_toBigEndian hlt

/-! ### Words of a width -/

section

variable {width : UInt8}

theorem toNat_bitsOfWidth (h₁ : 1 ≤ width.toNat) (h₈ : width.toNat ≤ 8) :
  (bitsOfWidth width).toNat = 8 * width.toNat
  := by
  have hzero : width ≠ 0 := by
    rintro rfl
    cases h₁
  have hlarge : ¬ 8 < width := by
    rw [UInt8.lt_iff_toNat_lt]
    apply Nat.not_lt.mpr h₈
  rw [bitsOfWidth, if_neg hzero, if_neg hlarge, UInt64.toNat_mul, UInt8.toNat_toUInt64]
  apply Nat.mod_eq_of_lt
  show 8 * _ < _
  omega

/-- A one that is shifted is a power of two. -/
theorem toNat_one_shiftLeft {n : UInt64} (h : n.toNat < 64) :
  ((1 : UInt64) <<< n).toNat = 2 ^ n.toNat
  := by
  rw [UInt64.toNat_shiftLeft, Nat.mod_eq_of_lt h, Nat.shiftLeft_eq, UInt64.toNat_one, one_mul]
  apply Nat.mod_eq_of_lt
  apply Nat.pow_lt_pow_right (by decide) h

theorem toNat_maskOfWidth (h₁ : 1 ≤ width.toNat) (h₈ : width.toNat ≤ 8) :
  (maskOfWidth width).toNat = capacity width.toNat - 1
  := by
  have hbits := toNat_bitsOfWidth h₁ h₈
  rw [maskOfWidth]
  split
  · next hlt =>
    rw [UInt64.lt_iff_toNat_lt, hbits] at hlt
    have hshift : ((1 : UInt64) <<< bitsOfWidth width).toNat = capacity width.toNat := by
      rw [toNat_one_shiftLeft, hbits, capacity_eq_two_pow]
      rw [hbits]
      apply hlt
    have hpos := capacity_pos width.toNat
    rw [UInt64.toNat_sub_of_le, hshift]
    · rfl
    · rw [UInt64.le_iff_toNat_le, hshift]
      apply hpos
  · next hle =>
    rw [UInt64.lt_iff_toNat_lt, hbits] at hle
    have hbound : UInt64.toNat 64 = 64 := rfl
    have hwidth : width.toNat = 8 := by omega
    rw [hwidth]
    rfl

theorem toInt_toInt64_of_lt {v : UInt64} (h : v.toNat < 2 ^ 63) :
  v.toInt64.toInt = v.toNat
  := by
  show v.toBitVec.toInt = _
  rw [BitVec.toInt_eq_toNat_of_lt]
  · rfl
  · show 2 * v.toNat < _
    omega

/-- Up to seven bytes, half of the numbers is a word. -/
theorem toInt_leastOfWidth (h₁ : 1 ≤ width.toNat) (h₇ : width.toNat ≤ 7) :
  (leastOfWidth width).toInt = -(capacity width.toNat / 2 : Nat)
  := by
  have hbits := toNat_bitsOfWidth h₁ (by omega)
  have hle := capacity_le h₇
  have hone : (bitsOfWidth width - 1).toNat = 8 * width.toNat - 1 := by
    rw [UInt64.toNat_sub_of_le, hbits]
    · rfl
    · rw [UInt64.le_iff_toNat_le, hbits]
      show 1 ≤ _
      omega
  have hshift : ((1 : UInt64) <<< (bitsOfWidth width - 1)).toNat = capacity width.toNat / 2 := by
    rw [toNat_one_shiftLeft, hone, capacity_eq_two_pow]
    · rw [← Nat.pow_div (by omega) (by decide), pow_one]
    · omega
  rw [leastOfWidth, Int64.toInt_neg, toInt_toInt64_of_lt, hshift]
  · rw [Int.bmod_eq_of_le]
    · omega
    · omega
  · rw [hshift]
    omega

/-- A mask takes the remainder, also of a negative number. -/
theorem toNat_and_maskOfWidth (h₁ : 1 ≤ width.toNat) (h₈ : width.toNat ≤ 8) (x : Int64) :
  ((x.toUInt64 &&& maskOfWidth width).toNat : Int) = x.toInt % (capacity width.toNat : Int)
  := by
  have hx : (x.toUInt64.toNat : Int) = x.toInt % 2 ^ 64 := by
    have hnat := BitVec.toNat_ofInt (n := 64) x.toBitVec.toInt
    rw [BitVec.ofInt_toInt, Int64.toNat_toBitVec, Int64.toInt_toBitVec] at hnat
    omega
  have hdvd : (capacity width.toNat : Int) ∣ 2 ^ 64 := by
    rw [capacity_eq_two_pow]
    exact_mod_cast pow_dvd_pow 2 (show 8 * width.toNat ≤ 64 by omega)
  rw [UInt64.toNat_and, toNat_maskOfWidth h₁ h₈, capacity_eq_two_pow,
    Nat.and_two_pow_sub_one_eq_mod, ← capacity_eq_two_pow, Int.natCast_emod, hx,
    Int.emod_emod_of_dvd _ hdvd]

/-! ### Literals -/

/-- Up to seven bytes, a decimal literal may be signed or unsigned, and its value is a remainder. -/
theorem Literal.value_decimal (h₁ : 1 ≤ width.toNat) (h₇ : width.toNat ≤ 7) (n : Int32) :
  (Literal.decimal n).value width
    = if n.toInt < -(capacity width.toNat / 2 : Nat) ∨ capacity width.toNat ≤ n.toInt then
        .error (.outOfRange n.toInt width)
      else .ok (UInt64.ofNat (n.toInt % capacity width.toNat).toNat)
  := by
  have hpos := capacity_pos width.toNat
  have hle := capacity_le h₇
  have hmask := toNat_maskOfWidth h₁ (by omega)
  have hgreatest : (maskOfWidth width).toInt64.toInt = (maskOfWidth width).toNat :=
    toInt_toInt64_of_lt (by omega)
  have hbounds : n.toInt64 < leastOfWidth width ∨ (maskOfWidth width).toInt64 < n.toInt64
      ↔ n.toInt < -(capacity width.toNat / 2 : Nat) ∨ capacity width.toNat ≤ n.toInt := by
    rw [Int64.lt_iff_toInt_lt, Int64.lt_iff_toInt_lt, Int32.toInt_toInt64,
      toInt_leastOfWidth h₁ h₇, hgreatest, hmask]
    omega
  have hand := toNat_and_maskOfWidth h₁ (by omega) n.toInt64
  rw [Int32.toInt_toInt64] at hand
  rw [← hand, Int.toNat_natCast, UInt64.ofNat_toNat]
  apply if_congr hbounds rfl rfl

/-- A hexadecimal literal is unsigned. -/
theorem Literal.value_hexadecimal (h₁ : 1 ≤ width.toNat) (h₈ : width.toNat ≤ 8) (n : UInt16) :
  (Literal.hexadecimal n).value width
    = if capacity width.toNat ≤ n.toNat then .error (.outOfRange n.toNat width)
      else .ok n.toUInt64
  := by
  have hpos := capacity_pos width.toNat
  have hbound : maskOfWidth width < n.toUInt64 ↔ capacity width.toNat ≤ n.toNat := by
    rw [UInt64.lt_iff_toNat_lt, UInt16.toNat_toUInt64, toNat_maskOfWidth h₁ h₈]
    omega
  apply if_congr hbound rfl rfl

theorem Argument.constant_literal_eq_ok_iff {l : Literal} {v : UInt64} :
  (Argument.literal l).constant width = .ok (some v) ↔ l.value width = .ok v
  := by
  rw [constant, Except.map_eq_ok_iff]
  simp

/-- The value of a literal has no more digits than asked for. -/
theorem Literal.toNat_value_lt (h₁ : 1 ≤ width.toNat) (h₈ : width.toNat ≤ 8) {l : Literal}
    {v : UInt64} (h : l.value width = .ok v) :
  v.toNat < capacity width.toNat
  := by
  have hpos := capacity_pos width.toNat
  cases l with
  | decimal n =>
      rw [value] at h
      split at h
      · cases h
      · cases h
        have hle := Nat.and_le_right (n := n.toInt64.toUInt64.toNat)
          (m := (maskOfWidth width).toNat)
        rw [toNat_maskOfWidth h₁ h₈] at hle
        rw [UInt64.toNat_and, toNat_maskOfWidth h₁ h₈]
        omega
  | hexadecimal n =>
      rw [value_hexadecimal h₁ h₈] at h
      split at h
      · cases h
      · cases h
        rw [UInt16.toNat_toUInt64]
        omega
  | character code =>
      cases h
      have := capacity_mono h₁
      have := code.toNat_lt
      rw [UInt8.toNat_toUInt64]
      simp only [capacity] at *
      omega
  | text bytes =>
      rw [value] at h
      split at h
      · cases h
      · next hlength =>
        cases h
        apply Nat.lt_of_lt_of_le (toNat_ofBigEndian_lt (by omega))
        apply capacity_mono
        omega

end

/-! ### Operands -/

/-- The number an operand of `width` bytes stands for.  It is zero for a symbol that has no
value. -/
inductive Argument.HasValue (resolve : SymbolRef → Option UInt64) (width : UInt8) :
    Argument → UInt64 → Prop
  | constant {a : Argument} {v : UInt64} (h : a.constant width = .ok (some v)) :
      HasValue resolve width a v
  | resolved {name : String} {r : SymbolRef} {v : UInt64} (h : resolve r = some v) :
      HasValue resolve width (.symbolic name r) v
  | unresolved {name : String} {r : SymbolRef} (h : resolve r = none) :
      HasValue resolve width (.symbolic name r) 0

/-- The name of an operand that has no value. -/
def Argument.pending? (resolve : SymbolRef → Option UInt64) : Argument → Option String
  | .literal _ => none
  | .symbolic name r => if resolve r = none then some name else none

variable {resolve : SymbolRef → Option UInt64} {width : UInt8}

theorem Argument.hasValue_literal_iff {l : Literal} {v : UInt64} :
  (Argument.literal l).HasValue resolve width v ↔ l.value width = .ok v
  := by
  rw [← Argument.constant_literal_eq_ok_iff]
  constructor
  · rintro ⟨h⟩
    apply h
  · apply HasValue.constant

theorem Argument.hasValue_symbolic_iff {name : String} {r : SymbolRef} {v : UInt64} :
  (Argument.symbolic name r).HasValue resolve width v ↔ v = (resolve r).getD 0
  := by
  constructor
  · rintro (h | h | h)
    · cases h
    · rw [h]
      rfl
    · rw [h]
      rfl
  · rintro rfl
    cases h : resolve r with
    | none => apply HasValue.unresolved h
    | some v => apply HasValue.resolved h

theorem fill_eq_ok_iff {line : LineId} {room : Nat} {bytes filled : List UInt8} :
  fill line room bytes = .ok filled
    ↔ bytes.length ≤ room ∧ filled = bytes ++ List.replicate (room - bytes.length) 0
  := by
  rw [fill]
  split
  · next h => simp [h, eq_comm]
  · next h => simp [h]

theorem fill_eq_ok_iff_of_length {line : LineId} {room : Nat} {bytes filled : List UInt8}
    (h : bytes.length = room) :
  fill line room bytes = .ok filled ↔ filled = bytes
  := by
  simp [fill_eq_ok_iff, h]

theorem placeOperand_bytes_eq_ok_iff {line : LineId} {offset room : Nat} {bytes : List UInt8}
    {code : LineCode} (h : bytes.length = room) :
  placeOperand line offset room width (.bytes bytes) = .ok code ↔ code = { bytes }
  := by
  rw [placeOperand, Except.bind_eq_ok_iff]
  simp only [fill_eq_ok_iff_of_length h, exists_eq_left]
  simp [pure, Except.pure, eq_comm]

/-- An operand is written in a room of its own width when its value has no more digits. -/
theorem encodeOperand_bind_placeOperand_eq_ok_iff (h₁ : 1 ≤ width.toNat) (h₈ : width.toNat ≤ 8)
    (line : LineId) (offset : Nat) (a : Argument) {code : LineCode} :
  encodeOperand resolve line width a >>= placeOperand line offset width.toNat width = .ok code
    ↔ (∃ v, a.HasValue resolve width v ∧ Digits width.toNat v code.bytes)
      ∧ code.pending? = (a.pending? resolve).map fun name => (offset, width, name)
  := by
  obtain ⟨bytes, pending?⟩ := code
  rw [Except.bind_eq_ok_iff]
  cases a with
  | literal l =>
      simp only [Argument.hasValue_literal_iff, Argument.pending?, Option.map_none,
        digits_iff h₈, encodeOperand]
      cases hv : l.value width with
      | error e => simp
      | ok v =>
          have hlt := Literal.toNat_value_lt h₁ h₈ hv
          simp [placeOperand_bytes_eq_ok_iff, hlt]
  | symbolic name r =>
      simp only [Argument.hasValue_symbolic_iff, Argument.pending?, digits_iff h₈, encodeOperand]
      cases hr : resolve r with
      | none =>
          have hpos := capacity_pos width.toNat
          simp [placeOperand, toBigEndian_zero, hpos, eq_comm]
      | some v =>
          by_cases hfits : fitsWidth v width
          · have hlt : v.toNat < capacity width.toNat := by simpa [fitsWidth] using hfits
            simp [hfits, placeOperand_bytes_eq_ok_iff, hlt]
          · have hlt : ¬ v.toNat < capacity width.toNat := by simpa [fitsWidth] using hfits
            simp [hfits, hlt]

/-! ### Lines -/

/-- The bytes of a line that takes `size` of them. -/
def Encodes (resolve : SymbolRef → Option UInt64) (size : Nat) (bytes : List UInt8) :
    LineKind → Prop
  | .monadic m => ∃ op, opcode m none = .ok op ∧ bytes = [op]
  | .dyadic m mode a => ∃ op v digits, opcode m mode = .ok op ∧ a.HasValue resolve 2 v
      ∧ Digits 2 v digits ∧ bytes = op :: digits
  | .align _ => bytes = List.replicate size 0
  | .block _ => bytes = List.replicate size 0
  | .data .ascii a => a.bytes? = some bytes ∧ bytes.length = size
  | .data .byte a => ∃ v, a.HasValue resolve 1 v ∧ Digits 1 v bytes
  | .data .word a => ∃ v, a.HasValue resolve 2 v ∧ Digits 2 v bytes
  | _ => False

/-- The operand that a line writes in its bytes: how far from the start of the line, in how many
bytes, and what. -/
def LineKind.operand? : LineKind → Option (Nat × UInt8 × Argument)
  | .dyadic _ _ a => some (1, 2, a)
  | .data .byte a => some (0, 1, a)
  | .data .word a => some (0, 2, a)
  | _ => none

theorem LineKind.operand?_cases {kind : LineKind} {offset : Nat} {width : UInt8} {a : Argument}
    (h : kind.operand? = some (offset, width, a)) :
  (∃ m mode, kind = .dyadic m mode a ∧ offset = 1 ∧ width = 2)
    ∨ (kind = .data .byte a ∧ offset = 0 ∧ width = 1)
    ∨ (kind = .data .word a ∧ offset = 0 ∧ width = 2)
  := by
  cases kind with
  | dyadic m mode a =>
      cases h
      exact .inl ⟨m, mode, rfl, rfl, rfl⟩
  | data kind a =>
      cases kind with
      | ascii => cases h
      | byte =>
          cases h
          exact .inr (.inl ⟨rfl, rfl, rfl⟩)
      | word =>
          cases h
          exact .inr (.inr ⟨rfl, rfl, rfl⟩)
  | _ => cases h

theorem LineKind.width_le {kind : LineKind} {offset : Nat} {width : UInt8} {a : Argument}
    (h : kind.operand? = some (offset, width, a)) :
  width.toNat ≤ 8
  := by
  obtain ⟨_, _, _, _, rfl⟩ | ⟨_, _, rfl⟩ | ⟨_, _, rfl⟩ := LineKind.operand?_cases h
  · decide
  · decide
  · decide

/-- The place in a line that waits for the value of a symbol. -/
def LineKind.pending? (resolve : SymbolRef → Option UInt64) (kind : LineKind) :
    Option (Nat × UInt8 × String) :=
  kind.operand?.bind fun (offset, width, a) =>
    (a.pending? resolve).map fun name => (offset, width, name)

theorem lineOpcode_eq_ok_iff {line : LineId} {m : Mnemonic} {mode : Option AddressingMode}
    {op : UInt8} :
  lineOpcode line m mode = .ok op ↔ opcode m mode = .ok op
  := by
  rw [lineOpcode]
  cases opcode m mode with
  | error e => simp
  | ok op => simp

/-- The opcode of an instruction stands before its operand. -/
theorem encodeLine_dyadic_eq_ok_iff {l : NumberedLine} {m : Mnemonic}
    {mode : Option AddressingMode} {a : Argument} (hkind : l.line.kind = .dyadic m mode a)
    {code : LineCode} :
  encodeLine resolve l 3 = .ok code
    ↔ ∃ op operand, opcode m mode = .ok op
      ∧ encodeOperand resolve l.id 2 a >>= placeOperand l.id 1 2 2 = .ok operand
      ∧ code = { operand with bytes := op :: operand.bytes }
  := by
  have hfill : ∀ op filled, fill l.id (min 3 1) [op] = .ok filled ↔ filled = [op] :=
    fun op filled => fill_eq_ok_iff_of_length rfl
  simp only [encodeLine, hkind, Except.bind_eq_ok_iff, lineOpcode_eq_ok_iff, hfill,
    exists_eq_left]
  constructor
  · rintro ⟨op, hop, enc, henc, operand, hoperand, ⟨⟩⟩
    exact ⟨op, operand, hop, ⟨enc, henc, hoperand⟩, rfl⟩
  · rintro ⟨op, operand, hop, ⟨enc, henc, hoperand⟩, rfl⟩
    exact ⟨op, hop, enc, henc, operand, hoperand, rfl⟩

theorem toNat_ofNat_min (n : Nat) :
  (UInt16.ofNat (min 65535 n)).toNat = min 65535 n
  := by
  rw [UInt16.toNat_ofNat']
  omega

/-- A text is cut nowhere: one that is too long for its line is refused. -/
theorem fill_text_eq_ok_iff {line : LineId} {text filled : List UInt8} :
  fill line (UInt16.ofNat (min 65535 text.length)).toNat text = .ok filled
    ↔ text.length = (UInt16.ofNat (min 65535 text.length)).toNat ∧ filled = text
  := by
  rw [fill_eq_ok_iff, toNat_ofNat_min]
  constructor
  · rintro ⟨hle, rfl⟩
    have hlength : text.length = min 65535 text.length := by omega
    use hlength
    rw [← hlength, Nat.sub_self, List.replicate_zero, List.append_nil]
  · rintro ⟨hlength, rfl⟩
    use hlength.le
    rw [← hlength, Nat.sub_self, List.replicate_zero, List.append_nil]

/-- The bytes of a line that takes any are its encoding. -/
theorem encodeLine_eq_ok_iff {l : NumberedLine} {base : UInt16} (hsize : l.line.size base ≠ 0)
    {code : LineCode} :
  encodeLine resolve l (l.line.size base).toNat = .ok code
    ↔ Encodes resolve (l.line.size base).toNat code.bytes l.line.kind
      ∧ code.pending? = l.line.kind.pending? resolve
  := by
  obtain ⟨bytes, pending?⟩ := code
  obtain ⟨id, kind, symbol?, comment?⟩ := l
  cases kind with
  | monadic m =>
      have hfill : ∀ op filled, fill id 1 [op] = .ok filled ↔ filled = [op] :=
        fun op filled => fill_eq_ok_iff_of_length rfl
      simp only [encodeLine, Except.bind_eq_ok_iff, lineOpcode_eq_ok_iff, Line.size, Line.size?,
        Option.getD_some, UInt16.toNat_one, hfill, exists_eq_left, Encodes]
      constructor
      · rintro ⟨op, hop, ⟨⟩⟩
        exact ⟨⟨op, hop, rfl⟩, rfl⟩
      · rintro ⟨⟨op, hop, rfl⟩, rfl⟩
        exact ⟨op, hop, rfl⟩
  | dyadic m mode a =>
      apply (encodeLine_dyadic_eq_ok_iff rfl).trans
      constructor
      · rintro ⟨op, ⟨digits, _⟩, hop, h, ⟨⟩⟩
        obtain ⟨⟨v, hv, hdigits⟩, hpending⟩ :=
          (encodeOperand_bind_placeOperand_eq_ok_iff (by decide) (by decide) id 1 a).mp h
        exact ⟨⟨op, v, digits, hop, hv, hdigits, rfl⟩, hpending⟩
      · rintro ⟨⟨op, v, digits, hop, hv, hdigits, rfl⟩, hpending⟩
        use op, { bytes := digits, pending? := pending? }, hop
        constructor
        · apply (encodeOperand_bind_placeOperand_eq_ok_iff (by decide) (by decide) id 1 a).mpr
          exact ⟨⟨v, hv, hdigits⟩, hpending⟩
        · rfl
  | align a =>
      simp [encodeLine, Encodes, LineKind.pending?, LineKind.operand?, eq_comm]
  | block a =>
      simp [encodeLine, Encodes, LineKind.pending?, LineKind.operand?, eq_comm]
  | data kind a =>
      cases kind with
      | ascii =>
          cases htext : a.bytes? with
          | none => simp [Line.size, Line.size?, htext] at hsize
          | some text =>
              simp only [encodeLine, Line.size, Line.size?, htext, Option.map_some,
                Option.getD_some, Except.bind_eq_ok_iff, fill_text_eq_ok_iff, Encodes,
                Option.some.injEq]
              constructor
              · rintro ⟨_, ⟨hlength, rfl⟩, ⟨⟩⟩
                exact ⟨⟨rfl, hlength⟩, rfl⟩
              · rintro ⟨⟨rfl, hlength⟩, rfl⟩
                exact ⟨text, ⟨hlength, rfl⟩, rfl⟩
      | byte =>
          apply encodeOperand_bind_placeOperand_eq_ok_iff (by decide) (by decide) id 0 a
      | word =>
          apply encodeOperand_bind_placeOperand_eq_ok_iff (by decide) (by decide) id 0 a
  | _ => cases hsize rfl

/-- An encoding fills its line. -/
theorem Encodes.length_eq {l : Line} {base : UInt16} {bytes : List UInt8}
    (h : Encodes resolve (l.size base).toNat bytes l.kind) :
  bytes.length = (l.size base).toNat
  := by
  obtain ⟨kind, symbol?, comment?⟩ := l
  cases kind with
  | monadic m =>
      obtain ⟨op, -, rfl⟩ := h
      rfl
  | dyadic m mode a =>
      obtain ⟨op, v, digits, -, -, hdigits, rfl⟩ := h
      rw [List.length_cons, hdigits.length_eq]
      rfl
  | align a =>
      obtain rfl := h
      apply List.length_replicate
  | block a =>
      obtain rfl := h
      apply List.length_replicate
  | data kind a =>
      cases kind with
      | ascii => apply h.2
      | byte =>
          obtain ⟨v, -, hdigits⟩ := h
          apply hdigits.length_eq
      | word =>
          obtain ⟨v, -, hdigits⟩ := h
          apply hdigits.length_eq
  | _ => cases h

end Pep10
