import Pep10.Image
import Pep10.Proofs.Hexadecimal

/-!
# Reading object text

An object text is read by splitting it into words at its blanks.  Each word is a byte in two
digits, up to the last one, which is the end mark.  Reading an object text yields the bytes that
were listed in it.
-/

namespace Pep10.Text

/-- The words of a text, which stand between blanks. -/
def words (text : List Char) : List (List Char) :=
  (text.splitOnP isBlank).filter (· ≠ [])

/-- The bytes that an object text lists. -/
def listedBytes? (text : String) : Option (List UInt8) :=
  if (words text.toList).getLast? = some "zz".toList then (words text.toList).dropLast.mapM byte?
  else none

/-! ### Words -/

/-- Characters without a blank among them. -/
structure IsWord (word : List Char) : Prop where
  ne_nil : word ≠ []
  not_isBlank : ∀ c ∈ word, isBlank c = false

theorem words_cons {word rest : List Char} {blank : Char} (hword : IsWord word)
    (hblank : isBlank blank) :
  words (word ++ blank :: rest) = word :: words rest
  := by
  rw [words, List.splitOnP_append_cons_of_forall_mem hword.not_isBlank _ hblank,
    List.filter_cons_of_pos (by simpa using hword.ne_nil)]
  rfl

theorem words_row {row : List (List Char)} {rest : List Char} (hrow : ∀ word ∈ row, IsWord word) :
  words ([' '].intercalate row ++ '\n' :: rest) = row ++ words rest
  := by
  induction row with
  | nil =>
      rw [List.intercalate_nil, words, List.splitOnP_append_cons [] rest rfl, List.filter_append,
        List.splitOnP_nil]
      rfl
  | cons word row ih =>
      rw [List.forall_mem_cons] at hrow
      cases row with
      | nil =>
          rw [List.intercalate_singleton, words_cons hrow.1 rfl]
          rfl
      | cons next row =>
          rw [List.intercalate_cons_cons, List.append_assoc, List.append_assoc,
            List.singleton_append, words_cons hrow.1 rfl, ih hrow.2]
          rfl

theorem words_unlines {rows : List (List String)}
    (h : ∀ word ∈ rows.flatten, IsWord word.toList) :
  words (unlines (rows.map spaced)).toList = rows.flatten.map String.toList
  := by
  rw [unlines, String.toList_ofList]
  induction rows with
  | nil => rfl
  | cons row rows ih =>
      rw [List.flatten_cons, List.forall_mem_append] at h
      rw [List.map_cons, List.flatMap_cons, List.append_assoc, List.singleton_append, spaced,
        String.toList_ofList, words_row (List.forall_mem_map.mpr h.1), ih h.2,
        List.flatten_cons, List.map_append]

theorem isWord_hexDigits (width n : Nat) :
  IsWord (hexDigits (width + 1) n)
  where
  ne_nil := by
    apply List.ne_nil_of_length_pos
    rw [length_hexDigits]
    apply Nat.succ_pos
  not_isBlank := fun c hc => (forall_mem_hexDigits _ n c hc).1

end Text

namespace Assembly

/-- The tokens of an object text before the end mark. -/
def byteTokens (a : Assembly) (segments : List Segment) : List (List Char) :=
  ((a.storedByBase segments).flatMap a.sectionBytes).map fun byte => Text.hexDigits 2 byte.toNat

theorem map_toList_objectTokens (a : Assembly) (segments : List Segment) :
  (a.objectTokens segments).map String.toList = a.byteTokens segments ++ ["zz".toList]
  := by
  rw [objectTokens, List.map_append, List.map_map]
  simp only [Function.comp_def, Text.hex, String.toList_ofList]
  rfl

/-- The tokens of an object text are words. -/
theorem isWord_of_mem_objectTokens (a : Assembly) (segments : List Segment) :
  ∀ token ∈ a.objectTokens segments, Text.IsWord token.toList
  := by
  rw [← List.forall_mem_map (P := Text.IsWord), map_toList_objectTokens, List.forall_mem_append,
    byteTokens, List.forall_mem_map, List.forall_mem_singleton]
  constructor
  · intro byte _
    apply Text.isWord_hexDigits
  · have hmark : "zz".toList = ['z', 'z'] := rfl
    rw [hmark]
    constructor
    · apply List.cons_ne_nil
    · rw [List.forall_mem_cons, List.forall_mem_singleton]
      exact ⟨rfl, rfl⟩

theorem words_objectText (a : Assembly) (segments : List Segment) :
  Text.words (a.objectText segments).toList = a.byteTokens segments ++ ["zz".toList]
  := by
  have htokens := a.isWord_of_mem_objectTokens segments
  rw [← Text.flatten_rows 15 (a.objectTokens segments)] at htokens
  rw [objectText, Text.words_unlines htokens, Text.flatten_rows, map_toList_objectTokens]

/-- An object text lists the bytes of the stored sections by increasing base address. -/
theorem listedBytes?_objectText (a : Assembly) (segments : List Segment) :
  Text.listedBytes? (a.objectText segments)
    = some ((a.storedByBase segments).flatMap a.sectionBytes)
  := by
  rw [Text.listedBytes?, words_objectText, List.getLast?_concat, if_pos rfl, List.dropLast_concat,
    byteTokens, Text.mapM_byte?_hexDigits]

end Assembly

end Pep10
