import Pep10.Text.Rows
import Mathlib.Data.List.Basic

/-!
# Rows

A list that is cut into rows is their concatenation, and all rows but the last one are full.  A text
whose rows have no newline in them is split into these rows at its newlines.
-/

namespace Pep10.Text

variable {α : Type} {n : Nat} {xs row : List α}

/-! ### Cutting a list -/

theorem flatten_rows (n : Nat) (xs : List α) :
  (rows n xs).flatten = xs
  := by
  fun_induction rows n xs with
  | case1 => rfl
  | case2 x xs ih => rw [List.flatten_cons, ih, List.cons_append, List.take_append_drop]

theorem rows_eq_nil_iff :
  rows n xs = [] ↔ xs = []
  := by
  cases xs with
  | nil => simp [rows]
  | cons x xs => simp [rows]

/-- There are as many rows as it takes. -/
theorem length_rows (n : Nat) (xs : List α) :
  (rows n xs).length = (xs.length + n) / (n + 1)
  := by
  fun_induction rows n xs with
  | case1 =>
      rw [List.length_nil, List.length_nil, Nat.zero_add, Nat.div_eq_of_lt (Nat.lt_succ_self n)]
  | case2 x xs ih =>
      rw [List.length_cons, ih, List.length_drop, List.length_cons]
      by_cases hle : n ≤ xs.length
      · rw [Nat.sub_add_cancel hle, Nat.add_assoc, Nat.add_comm 1 n,
          Nat.add_div_right _ (Nat.succ_pos n)]
      · have hshort : (xs.length + 1 + n) / (n + 1) = 1 := by
          apply Nat.div_eq_of_lt_le
          · omega
          · omega
        rw [hshort, Nat.div_eq_of_lt (by omega)]

theorem length_of_mem_rows (h : row ∈ rows n xs) :
  0 < row.length ∧ row.length ≤ n + 1
  := by
  fun_induction rows n xs with
  | case1 => cases h
  | case2 x xs ih =>
      rcases List.mem_cons.mp h with rfl | h
      · rw [List.length_cons, List.length_take]
        omega
      · apply ih h

/-- All rows but the last one are full. -/
theorem length_of_mem_dropLast_rows (h : row ∈ (rows n xs).dropLast) :
  row.length = n + 1
  := by
  fun_induction rows n xs with
  | case1 => cases h
  | case2 x xs ih =>
      by_cases hnil : rows n (xs.drop n) = []
      · rw [hnil] at h
        cases h
      · rw [List.dropLast_cons_of_ne_nil hnil] at h
        rcases List.mem_cons.mp h with rfl | h
        · rw [rows_eq_nil_iff, List.drop_eq_nil_iff] at hnil
          rw [List.length_cons, List.length_take]
          omega
        · apply ih h

/-! ### Splitting a text -/

/-- A text consists of rows that end with a newline each. -/
def HasRows (text : String) (rows : List (List Char)) : Prop :=
  text.toList.splitOn '\n' = rows ++ [[]]

theorem splitOn_append_newline {row : List Char} (h : '\n' ∉ row) (rest : List Char) :
  (row ++ '\n' :: rest).splitOn '\n' = row :: rest.splitOn '\n'
  := by
  apply List.splitOnP_append_cons_of_forall_mem
  · intro c hc
    rw [beq_eq_false_iff_ne]
    rintro rfl
    apply h hc
  · rfl

theorem hasRows_unlines {texts : List String} (h : ∀ text ∈ texts, '\n' ∉ text.toList) :
  HasRows (unlines texts) (texts.map String.toList)
  := by
  rw [HasRows, unlines, String.toList_ofList]
  induction texts with
  | nil => rfl
  | cons text texts ih =>
      rw [List.forall_mem_cons] at h
      rw [List.flatMap_cons, List.append_assoc, List.singleton_append,
        splitOn_append_newline h.1, ih h.2]
      rfl

theorem not_mem_spaced {texts : List String} {c : Char} (hc : c ≠ ' ')
    (h : ∀ text ∈ texts, c ∉ text.toList) :
  c ∉ (spaced texts).toList
  := by
  rw [spaced, String.toList_ofList]
  induction texts with
  | nil => simp
  | cons text texts ih =>
      rw [List.forall_mem_cons] at h
      cases texts with
      | nil => simpa using h.1
      | cons next texts => simpa [hc, h.1] using ih h.2

end Pep10.Text
