import Pep10.Text.Blank
import Pep10.Text.Digits
import Pep10.Text.Hex
import Pep10.Proofs.TextRows
import Mathlib.Tactic.Ring

/-!
# Reading hexadecimal text

Digits in base sixteen are read as the number they were written for, and bytes in two digits each
as the bytes.
-/

namespace Pep10.Text

/-- The digits in base sixteen, in upper case. -/
def upperDigits : List Char :=
  "0123456789ABCDEF".toList

/-- The byte that two digits stand for. -/
def byte? (word : List Char) : Option UInt8 :=
  if word.length = 2 then (ofDigits? 16 word).map UInt8.ofNat else none

/-- Digits in upper case that stand for bytes, two of them for each. -/
structure IsHexOf (digits : List Char) (bytes : List UInt8) : Prop where
  isDigit : ∀ c ∈ digits, c ∈ upperDigits
  bytes_eq : (rows 1 digits).mapM byte? = some bytes

/-! ### Numbers -/

theorem digitValue?_hexDigit {n : Nat} (h : n < 16) :
  digitValue? (hexDigit n) = some n ∧ isBlank (hexDigit n) = false
    ∧ hexDigit n ∈ upperDigits
  := by
  revert n
  decide

theorem length_hexDigits (width n : Nat) :
  (hexDigits width n).length = width
  := by
  induction width generalizing n with
  | zero => rfl
  | succ width ih => rw [hexDigits, List.length_append, ih, List.length_singleton]

theorem forall_mem_hexDigits (width n : Nat) :
  ∀ c ∈ hexDigits width n, isBlank c = false ∧ c ∈ upperDigits
  := by
  induction width generalizing n with
  | zero => simp [hexDigits]
  | succ width ih =>
      rw [hexDigits, List.forall_mem_append, List.forall_mem_singleton]
      use ih (n / 16)
      apply (digitValue?_hexDigit (Nat.mod_lt n (by decide))).2

theorem ofDigits?_concat {base n d : Nat} {digits : List Char} {c : Char}
    (h : ofDigits? base digits = some n) (hc : digitValue? c = some d) (hd : d < base) :
  ofDigits? base (digits ++ [c]) = some (base * n + d)
  := by
  unfold ofDigits? at h ⊢
  rw [List.foldlM_append, h]
  simp [hc, hd]

/-- The last digits of a number are read as what they are worth. -/
theorem ofDigits?_hexDigits (width n : Nat) :
  ofDigits? 16 (hexDigits width n) = some (n % 16 ^ width)
  := by
  induction width generalizing n with
  | zero => simp [hexDigits, ofDigits?, Nat.mod_one]
  | succ width ih =>
      have hlt : n % 16 < 16 := Nat.mod_lt n (by decide)
      have hmod : n % 16 ^ (width + 1) = 16 * (n / 16 % 16 ^ width) + n % 16 := by
        rw [Nat.pow_succ, Nat.mul_comm, Nat.mod_mul, Nat.add_comm]
      rw [hexDigits, hmod]
      apply ofDigits?_concat (ih (n / 16)) (digitValue?_hexDigit hlt).1 hlt

/-! ### Bytes -/

theorem hexDigits_two (n : Nat) :
  hexDigits 2 n = [hexDigit (n / 16 % 16), hexDigit (n % 16)]
  := rfl

/-- A byte in two digits is read as that byte. -/
theorem byte?_hexDigits (byte : UInt8) :
  byte? (hexDigits 2 byte.toNat) = some byte
  := by
  have hvalue : byte.toNat % 16 ^ 2 = byte.toNat := Nat.mod_eq_of_lt byte.toNat_lt
  rw [byte?, if_pos (length_hexDigits 2 _), ofDigits?_hexDigits, hvalue, Option.map_some,
    UInt8.ofNat_toNat]

theorem mapM_byte?_hexDigits (bytes : List UInt8) :
  (bytes.map fun byte => hexDigits 2 byte.toNat).mapM byte? = some bytes
  := by
  have hbytes : byte? ∘ (fun byte : UInt8 => hexDigits 2 byte.toNat)
      = fun byte => pure (id byte) :=
    funext byte?_hexDigits
  rw [List.mapM_map, hbytes, List.mapM_pure, List.map_id]
  rfl

/-- A sequence of bytes is cut into pairs of digits. -/
theorem rows_flatMap_hexDigits (bytes : List UInt8) :
  rows 1 (bytes.flatMap fun byte => hexDigits 2 byte.toNat)
    = bytes.map fun byte => hexDigits 2 byte.toNat
  := by
  induction bytes with
  | nil => simp [rows]
  | cons byte bytes ih =>
      rw [List.flatMap_cons, List.map_cons, ← ih, hexDigits_two, List.cons_append,
        List.singleton_append, rows]
      rfl

theorem isHexOf_flatMap_hexDigits (bytes : List UInt8) :
  IsHexOf (bytes.flatMap fun byte => hexDigits 2 byte.toNat) bytes
  where
  isDigit := by
    rw [List.forall_mem_flatMap]
    intro byte _ c hc
    apply (forall_mem_hexDigits 2 _ c hc).2
  bytes_eq := by rw [rows_flatMap_hexDigits, mapM_byte?_hexDigits]

end Pep10.Text
