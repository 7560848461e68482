import Pep10.Proofs.Formats
import Pep10.Proofs.Segments

/-!
# The rows of an object text

The object text of an assembled program lists the bytes of its sections in two digits each, sixteen
to a row, and an end mark after them.  The sections come by increasing base, and those with the same
base in their own order, since they are sorted from the order they have in the segments and sorting
is stable.  Zeroed sections and sections without bytes are left out.
-/

namespace Pep10

namespace Assembly

/-- An object text lists the bytes of sections in the order of their bases. -/
structure ObjectTextLaw (a : Assembly) (text : String) (order : List Nat)
    (tokens : List (List Char)) (rows : List (List (List Char))) : Prop where
  /-- The sections that are not zeroed and have bytes are listed. -/
  mem_order_iff : ∀ i, i ∈ order
    ↔ ∃ s, a.sections[i]? = some s ∧ ¬ s.isZeroed ∧ a.sectionBytes i ≠ []
  /-- They are listed by base, and by position where the bases are the same. -/
  pairwise_order : order.Pairwise fun i j =>
    a.baseOf i < a.baseOf j ∨ a.baseOf i = a.baseOf j ∧ i < j
  words_eq : Text.words text.toList = tokens ++ ["zz".toList]
  isDigit : ∀ token ∈ tokens, token.length = 2 ∧ ∀ c ∈ token, c ∈ Text.upperDigits
  bytes_eq : tokens.mapM Text.byte? = some (order.flatMap a.sectionBytes)
  /-- There is one space between two tokens of a row and a newline after a row. -/
  hasRows : Text.HasRows text (rows.map [' '].intercalate)
  flatten_rows : rows.flatten = tokens ++ ["zz".toList]
  length_of_mem_dropLast : ∀ row ∈ rows.dropLast, row.length = 16
  length_of_mem_getLast? : ∀ row ∈ rows.getLast?, 1 ≤ row.length ∧ row.length ≤ 16

end Assembly

/-! ### The order of the sections -/

/-- Sorting by a key leaves elements with the same key in their order. -/
theorem pairwise_mergeSort_key (key : Nat → UInt16) {xs : List Nat} (h : xs.Pairwise (· < ·)) :
  (xs.mergeSort fun i j => key i ≤ key j).Pairwise
    fun i j => key i < key j ∨ key i = key j ∧ i < j
  := by
  have hsorted := List.pairwise_mergeSort (key_trans key) (key_total key) xs
  rw [List.pairwise_iff_forall_sublist] at hsorted h ⊢
  intro i j hij
  have hle : key i ≤ key j := of_decide_eq_true (hsorted hij)
  rcases UInt16.lt_or_eq_of_le hle with hlt | heq
  · left
    apply hlt
  · right
    use heq
    apply h
    -- The elements with this key are in order before they are sorted.
    have hsame : (xs.filter (key · = key i)).Pairwise fun i j => decide (key i ≤ key j) = true := by
      apply List.pairwise_of_forall_mem_list
      intro x hx y hy
      simp only [List.mem_filter, decide_eq_true_eq] at hx hy ⊢
      rw [hx.2, hy.2]
      apply UInt16.le_refl
    have hfilter := hij.filter (key · = key i)
    rw [filter_mergeSort_of_pairwise (key_trans key) (key_total key) hsame] at hfilter
    simp only [heq, decide_true, List.filter_cons_of_pos, List.filter_nil] at hfilter
    apply hfilter.trans List.filter_sublist

/-- The stored sections of an assembled program are in their own order. -/
theorem storedSections_of_assemble {program : Program} {symbols : SymbolTable} {options : Options}
    {a : Assembly} (h : (assemble program symbols options).outcome = .ok a) :
  (storedSections (segments a.sections)).Pairwise (· < ·)
    ∧ ∀ i, i ∈ storedSections (segments a.sections)
      ↔ ∃ s, a.sections[i]? = some s ∧ ¬ s.isZeroed ∧ 0 < s.bounds.byteCount
  := by
  rw [(segmented_of_assemble h).storedSections_eq, List.filter_filter]
  constructor
  · have hindices : (a.sections.zipIdx.map (·.2)).Pairwise (· < ·) := by
      rw [List.zipIdx_map_snd]
      exact List.pairwise_lt_range'
    apply hindices.sublist (List.filter_sublist.map _)
  · intro i
    simp [List.mem_zipIdx_iff_getElem?]

/-! ### Rows of tokens -/

/-- The rows of an object text, token by token. -/
def Assembly.tokenRows (a : Assembly) (segments : List Segment) : List (List (List Char)) :=
  (Text.rows 15 (a.objectTokens segments)).map (·.map String.toList)

theorem Assembly.hasRows_objectText (a : Assembly) (segments : List Segment) :
  Text.HasRows (a.objectText segments) ((a.tokenRows segments).map [' '].intercalate)
  := by
  have hrows : (a.tokenRows segments).map [' '].intercalate
      = ((Text.rows 15 (a.objectTokens segments)).map Text.spaced).map String.toList := by
    rw [tokenRows, List.map_map, List.map_map]
    apply List.map_congr_left
    intro row _
    simp [Text.spaced]
  rw [hrows]
  apply Text.hasRows_unlines
  rw [List.forall_mem_map]
  intro row hrow
  apply Text.not_mem_spaced (by decide)
  intro token htoken hnewline
  have hmem : token ∈ a.objectTokens segments := by
    rw [← Text.flatten_rows 15 (a.objectTokens segments)]
    apply List.mem_flatten_of_mem hrow htoken
  cases (a.isWord_of_mem_objectTokens segments token hmem).not_isBlank _ hnewline

theorem Assembly.flatten_tokenRows (a : Assembly) (segments : List Segment) :
  (a.tokenRows segments).flatten = a.byteTokens segments ++ ["zz".toList]
  := by
  rw [tokenRows, ← List.map_flatten, Text.flatten_rows, map_toList_objectTokens]

/-- The object text of an assembled program lists the bytes of its sections. -/
theorem objectText_of_assembly {program : Program} {symbols : SymbolTable} {options : Options}
    {a : Assembly} (h : (assemble program symbols options).outcome = .ok a) :
  ∃ order tokens rows, a.ObjectTextLaw (a.objectText (segments a.sections)) order tokens rows
  := by
  obtain ⟨codes, hemits⟩ := exists_emits h
  obtain ⟨hsorted, hstored⟩ := storedSections_of_assemble h
  refine ⟨a.storedByBase (segments a.sections), a.byteTokens (segments a.sections),
    a.tokenRows (segments a.sections), {
      mem_order_iff := ?_
      pairwise_order := pairwise_mergeSort_key a.baseOf hsorted
      words_eq := a.words_objectText _
      isDigit := ?_
      bytes_eq := Text.mapM_byte?_hexDigits _
      hasRows := a.hasRows_objectText _
      flatten_rows := a.flatten_tokenRows _
      length_of_mem_dropLast := ?_
      length_of_mem_getLast? := ?_ }⟩
  · intro i
    rw [Assembly.storedByBase, List.mem_mergeSort, hstored]
    apply exists_congr
    intro s
    apply and_congr_right
    intro hs
    apply and_congr_right
    intro hzeroed
    rw [← hemits.length_sectionBytes hs hzeroed, List.length_pos_iff]
  · rw [Assembly.byteTokens, List.forall_mem_map]
    intro byte _
    use Text.length_hexDigits 2 _
    intro c hc
    apply (Text.forall_mem_hexDigits 2 _ c hc).2
  · rw [Assembly.tokenRows, ← List.map_dropLast, List.forall_mem_map]
    intro row hrow
    rw [List.length_map, Text.length_of_mem_dropLast_rows hrow]
  · intro row hrow
    obtain ⟨row, hrow', rfl⟩ := List.mem_map.mp (List.mem_of_getLast? hrow)
    rw [List.length_map]
    apply Text.length_of_mem_rows hrow'

/-- A program whose last section comes first in memory. -/
def Program.turned : Program :=
  [{ kind := .origin .org (.literal (.hexadecimal 0xFFF0)) },
    { kind := .block (.literal (.decimal 14)) },
    { kind := .data .word (.literal (.hexadecimal 0x0102)) },
    { kind := .opening ⟨"zeros", { writable := true, zeroed := true }⟩ },
    { kind := .block (.literal (.decimal 2)) },
    { kind := .opening ⟨"more", { readable := true }⟩ },
    { kind := .data .byte (.literal (.hexadecimal 0xAB)) }]

theorem storedBytes_turned :
  (assemble .turned { id := 0 } {}).outcome.map
    (fun a => (a.storedByBase (segments a.sections)).flatMap a.sectionBytes)
    = .ok [0xAB, 0, 0, 0, 0, 0, 0, 0, 0, 0, 0, 0, 0, 0, 0, 1, 2]
  := by
  cbv

theorem objectText_of_assembly_turned :
  ∃ a, (assemble .turned { id := 0 } {}).outcome = .ok a
    ∧ ∃ order tokens rows, a.ObjectTextLaw
      "AB 00 00 00 00 00 00 00 00 00 00 00 00 00 00 01\n02 zz\n" order tokens rows
  := by
  obtain ⟨a, ha, hbytes⟩ := Except.map_eq_ok_iff.mp storedBytes_turned
  have htext : a.objectText (segments a.sections)
      = "AB 00 00 00 00 00 00 00 00 00 00 00 00 00 00 01\n02 zz\n" := by
    rw [Assembly.objectText, Assembly.objectTokens, hbytes]
    decide +kernel
  use a, ha
  rw [← htext]
  apply objectText_of_assembly ha

end Pep10
