import Pep10.Proofs.Encoding
import Mathlib.Data.Nat.Digits.Defs

/-!
# Constants

Which literals have a value in a number of bytes, and what it is.  A value has no more digits than
bytes are asked for, so the digits that are written say all of it.  It is computed in words of 64
bits, with bounds that are powers of two: up to seven bytes, these words hold them and everything
else that is computed on the way to the value.
-/

namespace Pep10

/-! ### Powers of two -/

theorem natCast_capacity (n : Nat) :
  (capacity n : Int) = 2 ^ (8 * n)
  := by
  rw [capacity_eq_two_pow, Nat.cast_pow]
  rfl

theorem natCast_capacity_eq_two_mul {n : Nat} (h : 1 ≤ n) :
  (capacity n : Int) = 2 * 2 ^ (8 * n - 1)
  := by
  rw [natCast_capacity, ← pow_succ', Nat.sub_add_cancel (by omega)]

/-! ### Numbers and their digits -/

/-- The number whose digits in base 256 are the bytes, the most significant first. -/
def numberOf (bytes : List UInt8) : Nat :=
  Nat.ofDigits 256 (bytes.reverse.map UInt8.toNat)

theorem numberOf_concat (bytes : List UInt8) (b : UInt8) :
  numberOf (bytes ++ [b]) = 256 * numberOf bytes + b.toNat
  := by
  rw [numberOf, List.reverse_append, List.reverse_singleton, List.singleton_append, List.map_cons,
    Nat.ofDigits_cons, add_comm, numberOf]

theorem toNat_ofBigEndian {bytes : List UInt8} (h : bytes.length ≤ 8) :
  (ofBigEndian bytes).toNat = numberOf bytes
  := by
  induction bytes using List.reverseRecOn with
  | nil => rfl
  | append_singleton bytes b ih =>
      rw [List.length_append, List.length_singleton] at h
      have hlength : bytes.length < 8 := h
      rw [toNat_ofBigEndian_concat hlength (toNat_ofBigEndian_lt hlength.le), ih hlength.le,
        numberOf_concat]

theorem numberOf_toBigEndian {n : Nat} (hn : n ≤ 8) {v : UInt64} (h : v.toNat < capacity n) :
  numberOf (toBigEndian n v) = v.toNat
  := by
  rw [← toNat_ofBigEndian, ofBigEndian_toBigEndian h]
  rw [length_toBigEndian]
  apply hn

theorem ofBigEndian_replicate_append (n : Nat) (bytes : List UInt8) :
  ofBigEndian (List.replicate n 0 ++ bytes) = ofBigEndian bytes
  := by
  induction n with
  | zero => rfl
  | succ n ih => apply ih

/-- A number with fewer digits is written with zeros before them. -/
theorem toBigEndian_ofBigEndian_of_le {n : Nat} (hn : n ≤ 8) {bytes : List UInt8}
    (h : bytes.length ≤ n) :
  toBigEndian n (ofBigEndian bytes) = List.replicate (n - bytes.length) 0 ++ bytes
  := by
  have hlength : (List.replicate (n - bytes.length) 0 ++ bytes).length = n := by
    rw [List.length_append, List.length_replicate]
    omega
  have hwritten := toBigEndian_ofBigEndian (hlength.trans_le hn)
  rw [hlength, ofBigEndian_replicate_append] at hwritten
  apply hwritten

/-! ### Values in words -/

/-- The word of 64 bits that holds a number. -/
def word? (n : Int) : Option UInt64 :=
  if 0 ≤ n ∧ n < 2 ^ 64 then some (UInt64.ofNat n.toNat) else none

/-- The signed word of 64 bits that holds a number. -/
def signedWord? (n : Int) : Option Int64 :=
  if -2 ^ 63 ≤ n ∧ n < 2 ^ 63 then some (Int64.ofInt n) else none

theorem exists_word? {n : Int} (h₀ : 0 ≤ n) (h : n < 2 ^ 64) :
  ∃ v, word? n = some v ∧ (v.toNat : Int) = n
  := by
  refine ⟨_, if_pos ⟨h₀, h⟩, ?_⟩
  rw [UInt64.toNat_ofNat']
  omega

theorem exists_signedWord? {n : Int} (h₀ : -2 ^ 63 ≤ n) (h : n < 2 ^ 63) :
  ∃ v, signedWord? n = some v ∧ v.toInt = n
  := ⟨_, if_pos ⟨h₀, h⟩, Int64.toInt_ofInt_of_le h₀ h⟩

/-- The largest number with `width` digits, as a word: a one is shifted and decreased. -/
def mask? (width : UInt8) : Option UInt64 := do
  let power ← word? (2 ^ (8 * width.toNat))
  word? (power.toNat - 1)

/-- The least signed number with `width` digits, as a word. -/
def least? (width : UInt8) : Option Int64 := do
  let half ← signedWord? (2 ^ (8 * width.toNat - 1))
  signedWord? (-half.toInt)

/-- The next digit is appended to a number by a shift. -/
def appendDigit? (n : UInt64) (digit : UInt8) : Option UInt64 := do
  let shifted ← word? (256 * n.toNat)
  return shifted ||| digit.toUInt64

/-- The value of a literal in `width` bytes, if words of 64 bits hold all that is computed on the
way: the bounds are made by shifts, and the value of a decimal literal by a mask. -/
def Literal.valueInWords? (width : UInt8) : Literal → Option (Except ArgumentError UInt64)
  | .decimal n => do
    let mask ← mask? width
    let least ← least? width
    let greatest ← signedWord? mask.toNat
    if n.toInt64 < least ∨ greatest < n.toInt64 then return .error (.outOfRange n.toInt width)
    else return .ok (n.toInt64.toUInt64 &&& mask)
  | .hexadecimal n => do
    let mask ← mask? width
    if mask < n.toUInt64 then return .error (.outOfRange n.toNat width)
    else return .ok n.toUInt64
  | .character code => some (.ok code.toUInt64)
  | .text bytes =>
    if width.toNat < bytes.length then some (.error (.textTooLong bytes.length width))
    else do return .ok (← bytes.foldlM appendDigit? 0)

theorem appendDigit?_ofBigEndian {bytes : List UInt8} (h : bytes.length ≤ 7) (b : UInt8) :
  appendDigit? (ofBigEndian bytes) b = some (ofBigEndian (bytes ++ [b]))
  := by
  have hlt := toNat_ofBigEndian_lt (show bytes.length ≤ 8 by omega)
  have hle := capacity_le h
  obtain ⟨shifted, hshifted, hnat⟩ := exists_word? (n := 256 * (ofBigEndian bytes).toNat)
    (by omega) (by omega)
  rw [appendDigit?, hshifted]
  apply congrArg some
  apply UInt64.toNat_inj.mp
  -- the low bits are free after the shift, so that joining the digit adds it
  have hor := Nat.shiftLeft_add_eq_or_of_lt b.toNat_lt (ofBigEndian bytes).toNat
  rw [toNat_ofBigEndian_concat (by omega) hlt, UInt64.toNat_or, UInt8.toNat_toUInt64]
  rw [Nat.shiftLeft_eq] at hor
  rw [show shifted.toNat = (ofBigEndian bytes).toNat * 2 ^ 8 by omega, ← hor]
  omega

theorem foldlM_appendDigit? {bytes : List UInt8} (h : bytes.length ≤ 8) :
  bytes.foldlM appendDigit? 0 = some (ofBigEndian bytes)
  := by
  induction bytes using List.reverseRecOn with
  | nil => rfl
  | append_singleton bytes b ih =>
      rw [List.length_append, List.length_singleton] at h
      rw [List.foldlM_append, ih (by omega), Option.bind_eq_bind, Option.bind_some,
        List.foldlM_cons, appendDigit?_ofBigEndian (by omega)]
      rfl

section

variable {width : UInt8}

theorem mask?_eq (h₁ : 1 ≤ width.toNat) (h₇ : width.toNat ≤ 7) :
  mask? width = some (maskOfWidth width)
  := by
  have hpos := capacity_pos width.toNat
  have hle := capacity_le h₇
  have hpow := natCast_capacity width.toNat
  obtain ⟨power, hpower, hnat⟩ := exists_word? (n := 2 ^ (8 * width.toNat))
    (by omega) (by omega)
  obtain ⟨mask, hmask, hnat'⟩ := exists_word? (n := power.toNat - 1) (by omega) (by omega)
  rw [mask?, hpower, Option.bind_eq_bind, Option.bind_some, hmask, Option.some_inj]
  apply UInt64.toNat_inj.mp
  rw [toNat_maskOfWidth h₁ (by omega)]
  omega

theorem least?_eq (h₁ : 1 ≤ width.toNat) (h₇ : width.toNat ≤ 7) :
  least? width = some (leastOfWidth width)
  := by
  have hle := capacity_le h₇
  have htwo := natCast_capacity_eq_two_mul h₁
  obtain ⟨half, hhalf, hint⟩ := exists_signedWord? (n := 2 ^ (8 * width.toNat - 1))
    (by omega) (by omega)
  obtain ⟨least, hleast, hint'⟩ := exists_signedWord? (n := -half.toInt) (by omega) (by omega)
  rw [least?, hhalf, Option.bind_eq_bind, Option.bind_some, hleast, Option.some_inj]
  apply Int64.toInt_inj.mp
  rw [toInt_leastOfWidth h₁ h₇]
  omega

/-- The mask is also the greatest unsigned number, read as a signed word. -/
theorem signedWord?_maskOfWidth (h₁ : 1 ≤ width.toNat) (h₇ : width.toNat ≤ 7) :
  signedWord? (maskOfWidth width).toNat = some (maskOfWidth width).toInt64
  := by
  have hle := capacity_le h₇
  have hmask := toNat_maskOfWidth h₁ (by omega)
  obtain ⟨greatest, hgreatest, hint⟩ := exists_signedWord? (n := (maskOfWidth width).toNat)
    (by omega) (by omega)
  rw [hgreatest, Option.some_inj]
  apply Int64.toInt_inj.mp
  rw [hint, toInt_toInt64_of_lt]
  omega

/-- Up to seven bytes, words of 64 bits hold all that is computed on the way to a value. -/
theorem Literal.valueInWords?_eq (h₁ : 1 ≤ width.toNat) (h₇ : width.toNat ≤ 7) (l : Literal) :
  l.valueInWords? width = some (l.value width)
  := by
  cases l with
  | decimal n =>
      rw [valueInWords?, mask?_eq h₁ h₇, Option.bind_eq_bind, Option.bind_some, least?_eq h₁ h₇,
        Option.bind_eq_bind, Option.bind_some, signedWord?_maskOfWidth h₁ h₇, Option.bind_some,
        value]
      split
      · rfl
      · rfl
  | hexadecimal n =>
      rw [valueInWords?, mask?_eq h₁ h₇, Option.bind_eq_bind, Option.bind_some, value]
      split
      · rfl
      · rfl
  | character code => rfl
  | text bytes =>
      rw [valueInWords?, value]
      split
      · rfl
      · rw [foldlM_appendDigit? (by omega)]
        rfl

/-! ### The law of constants -/

/-- What operands of `width` bytes stand for, and how they are written. -/
structure ConstantLaw (width : UInt8) : Prop where
  /-- A decimal literal is signed or unsigned, and its value is a remainder. -/
  decimal : ∀ n : Int32,
    if -(2 ^ (8 * width.toNat - 1)) ≤ n.toInt ∧ n.toInt ≤ 2 ^ (8 * width.toNat) - 1 then
      ∃ v : UInt64, (Argument.literal (.decimal n)).constant width = .ok (some v)
        ∧ (v.toNat : Int) = n.toInt % 2 ^ (8 * width.toNat)
    else (Argument.literal (.decimal n)).constant width = .error (.outOfRange n.toInt width)
  /-- A hexadecimal literal is unsigned. -/
  hexadecimal : ∀ n : UInt16,
    (Argument.literal (.hexadecimal n)).constant width
      = if n.toNat < 2 ^ (8 * width.toNat) then .ok (some n.toUInt64)
        else .error (.outOfRange n.toNat width)
  /-- A character stands for its code. -/
  character : ∀ code : UInt8,
    (Argument.literal (.character code)).constant width = .ok (some code.toUInt64)
  /-- The bytes of a text are the digits of its value. -/
  text : ∀ bytes : List UInt8,
    if bytes.length ≤ width.toNat then
      ∃ v : UInt64, (Argument.literal (.text bytes)).constant width = .ok (some v)
        ∧ v.toNat = numberOf bytes
    else (Argument.literal (.text bytes)).constant width
      = .error (.textTooLong bytes.length width)
  /-- A symbol has no value of its own. -/
  symbolic : ∀ (name : String) (r : SymbolRef),
    (Argument.symbolic name r).constant width = .ok none
  value_lt : ∀ {a : Argument} {v : UInt64}, a.constant width = .ok (some v) →
    v.toNat < 2 ^ (8 * width.toNat)
  /-- A value is written with `width` digits that say all of it. -/
  written : ∀ {a : Argument} {v : UInt64}, a.constant width = .ok (some v) →
    ∀ (resolve : SymbolRef → Option UInt64) (line : LineId),
      ∃ bytes, encodeOperand resolve line width a = .ok (.bytes bytes)
        ∧ bytes.length = width.toNat ∧ numberOf bytes = v.toNat
  /-- A text is written after zeros. -/
  written_text : ∀ {bytes : List UInt8}, bytes.length ≤ width.toNat →
    ∀ (resolve : SymbolRef → Option UInt64) (line : LineId),
      encodeOperand resolve line width (.literal (.text bytes))
        = .ok (.bytes (List.replicate (width.toNat - bytes.length) 0 ++ bytes))
  /-- Words of 64 bits are wide enough. -/
  inWords : ∀ l : Literal, l.valueInWords? width = some (l.value width)

theorem Argument.constant_decimal (h₁ : 1 ≤ width.toNat) (h₇ : width.toNat ≤ 7) (n : Int32) :
  if -(2 ^ (8 * width.toNat - 1)) ≤ n.toInt ∧ n.toInt ≤ 2 ^ (8 * width.toNat) - 1 then
    ∃ v : UInt64, (Argument.literal (.decimal n)).constant width = .ok (some v)
      ∧ (v.toNat : Int) = n.toInt % 2 ^ (8 * width.toNat)
  else (Argument.literal (.decimal n)).constant width = .error (.outOfRange n.toInt width)
  := by
  have hpos := capacity_pos width.toNat
  have hle := capacity_le h₇
  have htwo := natCast_capacity_eq_two_mul h₁
  rw [← natCast_capacity]
  split
  · next hrange =>
    refine ⟨UInt64.ofNat (n.toInt % (capacity width.toNat : Int)).toNat, ?_, ?_⟩
    · rw [constant_literal_eq_ok_iff, Literal.value_decimal h₁ h₇, if_neg]
      omega
    · have hnonneg := Int.emod_nonneg n.toInt (b := (capacity width.toNat : Int)) (by omega)
      have hlt := Int.emod_lt_of_pos n.toInt (b := (capacity width.toNat : Int)) (by omega)
      rw [UInt64.toNat_ofNat']
      omega
  · next hrange =>
    rw [constant, Literal.value_decimal h₁ h₇, if_pos]
    · rfl
    · omega

theorem Argument.exists_literal_of_constant {a : Argument} {v : UInt64}
    (h : a.constant width = .ok (some v)) :
  ∃ l, a = .literal l ∧ l.value width = .ok v
  := by
  cases a with
  | literal l => exact ⟨l, rfl, constant_literal_eq_ok_iff.mp h⟩
  | symbolic name r => cases h

/-- Operands of up to seven bytes satisfy the law of constants. -/
theorem constantLaw_of_width (h₁ : 1 ≤ width.toNat) (h₇ : width.toNat ≤ 7) :
  ConstantLaw width
  where
  decimal := Argument.constant_decimal h₁ h₇
  hexadecimal n := by
    rw [Argument.constant, Literal.value_hexadecimal h₁ (by omega), capacity_eq_two_pow]
    by_cases hn : n.toNat < 2 ^ (8 * width.toNat)
    · rw [if_pos hn, if_neg (Nat.not_le.mpr hn)]
      rfl
    · rw [if_neg hn, if_pos (Nat.not_lt.mp hn)]
      rfl
  character _ := rfl
  text bytes := by
    split
    · next hlength =>
      refine ⟨ofBigEndian bytes, ?_, toNat_ofBigEndian (by omega)⟩
      rw [Argument.constant_literal_eq_ok_iff, Literal.value, if_neg (Nat.not_lt.mpr hlength)]
    · next hlength =>
      rw [Argument.constant, Literal.value, if_pos (Nat.not_le.mp hlength)]
      rfl
  symbolic _ _ := rfl
  value_lt h := by
    obtain ⟨l, rfl, hl⟩ := Argument.exists_literal_of_constant h
    rw [← capacity_eq_two_pow]
    apply Literal.toNat_value_lt h₁ (by omega) hl
  written {_ v} h resolve line := by
    obtain ⟨l, rfl, hl⟩ := Argument.exists_literal_of_constant h
    refine ⟨toBigEndian width.toNat v, ?_, length_toBigEndian _ _, ?_⟩
    · rw [encodeOperand, hl]
    · apply numberOf_toBigEndian (by omega)
      apply Literal.toNat_value_lt h₁ (by omega) hl
  written_text hlength resolve line := by
    rw [encodeOperand, Literal.value, if_neg (Nat.not_lt.mpr hlength)]
    rw [← toBigEndian_ofBigEndian_of_le (by omega) hlength]
  inWords := Literal.valueInWords?_eq h₁ h₇

theorem constantLaw_of_width_seven :
  1 ≤ (7 : UInt8).toNat ∧ (7 : UInt8).toNat ≤ 7 ∧ ConstantLaw 7
  := ⟨by decide, by decide, constantLaw_of_width (by decide) (by decide)⟩

end

end Pep10
