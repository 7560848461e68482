import Pep10.Assembly
import Pep10.Proofs.Layout.Trace

/-!
# Values of symbols

The table of an assembled program holds words only: addresses, and constants of sixteen bits.
Following pointers between such tables never leads to anything else, so whatever a symbol stands
for fits in two bytes.
-/

namespace Pep10

/-! ### Resolution in tables of words -/

/-- A value that is no constant, or one of sixteen bits. -/
def SymbolValue.IsWord : SymbolValue → Prop
  | .constant c => c.value.toNat < 65536
  | _ => True

namespace SymbolTable

/-- A table that holds words only. -/
def Words (t : SymbolTable) : Prop :=
  ∀ e ∈ t.entries, e.value.IsWord

variable {t u : SymbolTable} {linked : List SymbolTable} {i j : SymbolId} {v : UInt64}

theorem isWord_of_value? (h : t.Words) {value : SymbolValue} (hvalue : t.value? i = some value) :
  value.IsWord
  := by
  obtain ⟨e, he, rfl⟩ := Option.map_eq_some_iff.mp hvalue
  apply h e (List.mem_of_getElem? he)

theorem toNat_lt_of_number (h : t.Words) (hv : t.denotation linked i = .number v) :
  v.toNat < 65536
  := by
  unfold denotation at hv
  split at hv
  · cases hv
  · cases hv
  · next hvalue =>
    cases hv
    apply isWord_of_value? h hvalue
  · cases hv
    rw [UInt16.toNat_toUInt64]
    apply UInt16.toNat_lt
  · cases hv
  · split at hv
    · cases hv
    · cases hv

theorem words_of_pointer (h : t.Words) (hlinked : ∀ u ∈ linked, u.Words)
    (hu : t.denotation linked i = .pointer u j) :
  u.Words
  := by
  unfold denotation at hu
  split at hu
  · cases hu
  · cases hu
  · cases hu
  · cases hu
  · cases hu
    apply h
  · split at hu
    · cases hu
    · next hfind =>
      cases hu
      apply hlinked _ (List.mem_of_find?_eq_some hfind)

theorem resolveWithin_lt (hlinked : ∀ u ∈ linked, u.Words) {hops : Nat} (h : t.Words)
    (hv : resolveWithin linked hops t i = some v) :
  v.toNat < 65536
  := by
  fun_induction resolveWithin linked hops t i with
  | case1 => cases hv
  | case2 hops t i value hd =>
      cases hv
      apply toNat_lt_of_number h hd
  | case3 => cases hv
  | case4 t i u j hd hops ih => apply ih (words_of_pointer h hlinked hd) hv

/-- What a symbol stands for fits in two bytes. -/
theorem resolveRef_lt (h : t.Words) (hlinked : ∀ u ∈ linked, u.Words) {r : SymbolRef}
    (hv : t.resolveRef r linked = some v) :
  v.toNat < 65536
  := by
  rw [resolveRef] at hv
  split at hv
  · apply resolveWithin_lt hlinked h hv
  · obtain ⟨u, hu, hv⟩ := Option.bind_eq_some_iff.mp hv
    apply resolveWithin_lt hlinked (hlinked u (List.mem_of_find?_eq_some hu)) hv

/-! ### Tables after an assembly -/

theorem Words.bindImports (h : t.Words) (linked : List SymbolTable) :
  (t.bindImports linked).Words
  := by
  rw [SymbolTable.bindImports, Words, List.forall_mem_map]
  intro e he
  rw [SymbolEntry.bindImport]
  split
  · split
    · trivial
    · apply h e he
  · apply h e he

theorem Words.modify (h : t.Words) {f : SymbolEntry → SymbolEntry}
    (hf : ∀ e ∈ t.entries, (f e).value.IsWord) :
  (t.modify i f).Words
  := by
  intro e' he'
  obtain ⟨j, hj⟩ := List.mem_iff_getElem?.mp he'
  rw [SymbolTable.modify, List.getElem?_modify] at hj
  obtain ⟨e, he, rfl⟩ := Option.map_eq_some_iff.mp hj
  split
  · apply hf e (List.mem_of_getElem? he)
  · apply h e (List.mem_of_getElem? he)

theorem Words.enter (h : t.Words) {d : Definition} (hd : d.value.IsWord) :
  (t.enter d).Words
  := by
  have hvalue : (t.setValue d.symbol d.value).Words := h.modify fun _ _ => hd
  rw [SymbolTable.enter]
  split
  · apply hvalue
  · apply hvalue.modify
    apply hvalue

end SymbolTable

theorem MaskedBits.isWord_word (v : UInt64) :
  (SymbolValue.constant (.word v)).IsWord
  := by
  have hle : (v &&& 0xFFFF).toNat ≤ 65535 := by
    rw [UInt64.toNat_and]
    apply Nat.and_le_right
  apply Nat.lt_succ_of_le hle

theorem isWord_of_equateValue {owner : TableId} {line : LineId} {a : Argument}
    {value : SymbolValue} (h : equateValue owner line a = .ok value) :
  value.IsWord
  := by
  cases a with
  | symbolic name r =>
      cases h
      split
      · trivial
      · trivial
  | literal l =>
      rw [equateValue] at h
      split at h
      · cases h
        apply MaskedBits.isWord_word
      · cases h

theorem SymbolTable.Words.foldl_enter {t : SymbolTable} (h : t.Words) {ds : List Definition}
    (hds : ∀ d ∈ ds, d.value.IsWord) :
  (ds.foldl SymbolTable.enter t).Words
  := by
  induction ds generalizing t with
  | nil => apply h
  | cons d ds ih =>
      rw [List.forall_mem_cons] at hds
      apply ih (h.enter hds.1) hds.2

/-- Assembling a program enters words only, whether it succeeds or not. -/
theorem assemble_words {symbols : SymbolTable} (h : symbols.Words) (program : Program)
    (options : Options) :
  (assemble program symbols options).symbols.Words
  := by
  have hbound := h.bindImports options.linked
  rw [assemble]
  split
  · apply hbound
  · apply hbound.foldl_enter
    intro d hd
    obtain ⟨place, hplace⟩ | ⟨_, _, _, hvalue⟩ := value_of_mem_definitions hd
    · rw [hplace]
      trivial
    · apply isWord_of_equateValue hvalue

end Pep10
