import Pep10.LineTable
import Mathlib.Algebra.Group.Nat.Defs
import Mathlib.Data.List.Dedup
import Mathlib.Data.List.Sort

/-!
# Looking up lines

The table of a sequence of insertions has its lines in increasing order, each of them once.
Looking up a line by halving the table yields the value inserted last for it, after as many steps
as the binary logarithm of the size.
-/

namespace Pep10

/-- Sorting is stable: elements that are in order keep it. -/
theorem filter_mergeSort_of_pairwise {β : Type} {le : β → β → Bool} {keep : β → Bool}
    {xs : List β} (htrans : ∀ x y z, le x y = true → le y z = true → le x z = true)
    (htotal : ∀ x y, (le x y || le y x) = true)
    (h : (xs.filter keep).Pairwise fun x y => le x y = true) :
  (xs.mergeSort le).filter keep = xs.filter keep
  := by
  have hsub := List.sublist_mergeSort htrans htotal h List.filter_sublist
  have hkept := hsub.filter keep
  rw [List.filter_filter] at hkept
  simp only [Bool.and_self] at hkept
  symm
  apply hkept.eq_of_length
  apply ((List.mergeSort_perm xs le).filter _).length_eq.symm

namespace LineTable

variable {α : Type}

/-- A table in which every line comes after the lines before it. -/
def Increasing (t : LineTable α) : Prop :=
  t.toList.Pairwise (·.1 < ·.1)

/-! ### Sorting insertions -/

theorem line_trans (e f g : LineId × α) :
  decide (e.1 ≤ f.1) = true → decide (f.1 ≤ g.1) = true → decide (e.1 ≤ g.1) = true
  := by
  simp only [decide_eq_true_eq]
  apply le_trans

theorem line_total (e f : LineId × α) :
  (decide (e.1 ≤ f.1) || decide (f.1 ≤ e.1)) = true
  := by
  simp [le_total]

theorem pairwise_mergeSort_line (inserts : List (LineId × α)) :
  (inserts.mergeSort fun e f => e.1 ≤ f.1).Pairwise (·.1 ≤ ·.1)
  := by
  have h := List.pairwise_mergeSort line_trans line_total inserts
  apply h.imp
  simp

theorem filter_mergeSort (line : LineId) (inserts : List (LineId × α)) :
  (inserts.mergeSort fun e f => e.1 ≤ f.1).filter (·.1 = line)
    = inserts.filter (·.1 = line)
  := by
  apply filter_mergeSort_of_pairwise line_trans line_total
  apply List.pairwise_of_forall_mem_list
  intro e he f hf
  simp only [List.mem_filter, decide_eq_true_eq] at he hf ⊢
  rw [he.2, hf.2]

/-! ### Keeping the last of neighbours -/

theorem keepLast_subset (xs : List (LineId × α)) :
  keepLast xs ⊆ xs
  := by
  induction xs using keepLast.induct with
  | case1 => simp [keepLast]
  | case2 e => simp [keepLast]
  | case3 e f rest h ih =>
      rw [keepLast, if_pos h]
      apply List.subset_cons_of_subset _ ih
  | case4 e f rest h ih =>
      rw [keepLast, if_neg h]
      apply List.cons_subset_cons _ ih

theorem keepLast_increasing {xs : List (LineId × α)} (h : xs.Pairwise (·.1 ≤ ·.1)) :
  (keepLast xs).Pairwise (·.1 < ·.1)
  := by
  induction xs using keepLast.induct with
  | case1 => simp [keepLast]
  | case2 e => simp [keepLast]
  | case3 e f rest heq ih =>
      rw [keepLast, if_pos heq]
      apply ih h.of_cons
  | case4 e f rest hne ih =>
      rw [keepLast, if_neg hne]
      apply List.Pairwise.cons _ (ih h.of_cons)
      intro g hg
      -- `f` is the least of the rest, and `e` lies strictly below it
      have hef := lt_of_le_of_ne (List.rel_of_pairwise_cons h List.mem_cons_self) hne
      obtain rfl | hg := List.mem_cons.mp (keepLast_subset _ hg)
      · apply hef
      · apply lt_of_lt_of_le hef (List.rel_of_pairwise_cons h.of_cons hg)

/-- An entry is kept when it is the last one for its line. -/
theorem mem_keepLast {xs : List (LineId × α)} (h : xs.Pairwise (·.1 ≤ ·.1))
    (e : LineId × α) :
  e ∈ keepLast xs ↔ (xs.filter (·.1 = e.1)).getLast? = some e
  := by
  induction xs using keepLast.induct with
  | case1 => simp [keepLast]
  | case2 f =>
      by_cases hf : f.1 = e.1
      · simp [keepLast, hf, eq_comm]
      · simp only [keepLast, List.mem_singleton, List.filter_cons, hf, decide_false]
        simpa using fun he : e = f => hf (by rw [he])
  | case3 f g rest heq ih =>
      rw [keepLast, if_pos heq, ih h.of_cons]
      by_cases hf : g.1 = e.1
      · simp [heq, hf]
      · simp [heq, hf]
  | case4 f g rest hne ih =>
      rw [keepLast, if_neg hne, List.mem_cons, ih h.of_cons]
      by_cases hf : f.1 = e.1
      · -- the lines after `f` are greater, so `f` is the only entry for its line
        have hnone : (g :: rest).filter (·.1 = e.1) = [] := by
          have hfg := lt_of_le_of_ne (List.rel_of_pairwise_cons h List.mem_cons_self) hne
          rw [List.filter_eq_nil_iff]
          intro k hk
          have hfk : f.1 < k.1 := by
            obtain rfl | hk := List.mem_cons.mp hk
            · apply hfg
            · apply lt_of_lt_of_le hfg (List.rel_of_pairwise_cons h.of_cons hk)
          rw [decide_eq_true_eq, ← hf]
          apply hfk.ne'
        have hfirst : (f :: g :: rest).filter (·.1 = e.1) = [f] := by
          rw [← hnone]
          apply List.filter_cons_of_pos
          simpa using hf
        rw [hfirst, hnone]
        simp [eq_comm]
      · have hne' : e ≠ f := fun he => hf (by rw [he])
        have hrest : (f :: g :: rest).filter (·.1 = e.1) = (g :: rest).filter (·.1 = e.1) := by
          apply List.filter_cons_of_neg
          simpa using hf
        rw [hrest]
        simp only [hne', false_or]

/-! ### Searching -/

theorem Increasing.lt {t : LineTable α} (ht : t.Increasing) {i j : Nat} {e f : LineId × α}
    (hij : i < j) (he : t.entries[i]? = some e) (hf : t.entries[j]? = some f) :
  e.1 < f.1
  := by
  rw [← Array.getElem?_toList, List.getElem?_eq_some_iff] at he hf
  obtain ⟨hi, rfl⟩ := he
  obtain ⟨hj, rfl⟩ := hf
  apply List.pairwise_iff_getElem.mp ht i j hi hj hij

theorem Increasing.lt_iff {t : LineTable α} (ht : t.Increasing) {i j : Nat}
    {e f : LineId × α} (he : t.entries[i]? = some e) (hf : t.entries[j]? = some f) :
  e.1 < f.1 ↔ i < j
  := by
  constructor
  · intro h
    by_contra hle
    obtain rfl | hlt := eq_or_lt_of_le (le_of_not_gt hle)
    · rw [he] at hf
      cases hf
      apply lt_irrefl _ h
    · apply lt_asymm h (ht.lt hlt hf he)
  · intro h
    apply ht.lt h he hf

theorem Increasing.index_eq {t : LineTable α} (ht : t.Increasing) {i j : Nat}
    {e f : LineId × α} (he : t.entries[i]? = some e) (hf : t.entries[j]? = some f)
    (h : e.1 = f.1) :
  i = j
  := by
  obtain hlt | heq | hlt := Nat.lt_trichotomy i j
  · cases (ht.lt hlt he hf).ne h
  · apply heq
  · cases (ht.lt hlt hf he).ne' h

/-- Searching a part of a table finds the entry for a line, wherever it is in that part. -/
theorem search_eq_some_iff {t : LineTable α} (ht : t.Increasing) (line : LineId) (value : α) :
    ∀ (steps lo hi : Nat), hi ≤ t.entries.size → hi - lo < steps →
      (t.search line steps lo hi = some value
        ↔ ∃ k, lo ≤ k ∧ k < hi ∧ t.entries[k]? = some (line, value))
  | 0, _, _, _, h => by omega
  | steps + 1, lo, hi, hhi, hsteps => by
      rw [search]
      split
      case isFalse hlt =>
        simp only [reduceCtorEq, false_iff]
        rintro ⟨k, hk, hk', -⟩
        omega
      case isTrue hlt =>
        obtain ⟨⟨found, v⟩, he⟩ : ∃ e, t.entries[(lo + hi) / 2]? = some e :=
          ⟨_, Array.getElem?_eq_getElem (by omega)⟩
        simp only [he]
        split
        case isTrue hfound =>
          subst hfound
          constructor
          · rintro ⟨⟩
            use (lo + hi) / 2, by omega, by omega, he
          · rintro ⟨k, -, -, hk⟩
            obtain rfl := ht.index_eq hk he rfl
            rw [he] at hk
            cases hk
            rfl
        case isFalse hne =>
          -- the half that is left out has no entry for the line
          split
          case isTrue hless =>
            rw [search_eq_some_iff ht line value steps _ _ hhi (by omega)]
            constructor
            · rintro ⟨k, hk, hk', h⟩
              use k, by omega, hk', h
            · rintro ⟨k, hk, hk', h⟩
              have := (ht.lt_iff he h).mp hless
              use k, by omega, hk', h
          case isFalse hless =>
            rw [search_eq_some_iff ht line value steps _ _ (by omega) (by omega)]
            constructor
            · rintro ⟨k, hk, hk', h⟩
              use k, hk, by omega, h
            · rintro ⟨k, hk, hk', h⟩
              have := (ht.lt_iff h he).mp (lt_of_le_of_ne (le_of_not_gt hless) (Ne.symm hne))
              use k, hk, by omega, h

theorem get?_eq_some_iff {t : LineTable α} (ht : t.Increasing) {line : LineId} {value : α} :
  t.get? line = some value ↔ (line, value) ∈ t.toList
  := by
  rw [get?, size, search_eq_some_iff ht line value _ _ _ le_rfl (by omega), toList,
    List.mem_iff_getElem?]
  constructor
  · rintro ⟨k, -, -, h⟩
    use k
    rwa [Array.getElem?_toList]
  · rintro ⟨k, h⟩
    rw [Array.getElem?_toList] at h
    use k, Nat.zero_le k, (Array.getElem?_eq_some_iff.mp h).1, h

/-! ### Halving a table -/

theorem search_of_le (t : LineTable α) (line : LineId) {steps lo hi : Nat} (h : hi ≤ lo) :
  t.search line steps lo hi = none
  := by
  cases steps with
  | zero => rfl
  | succ steps => rw [search, if_neg (Nat.not_lt_of_le h)]

/-- Every step leaves less than half of the entries to be searched, so it does not matter how many
steps are allowed beyond the binary logarithm. -/
theorem search_eq_of_lt_two_pow (t : LineTable α) (line : LineId) {steps steps' lo hi : Nat}
    (h : hi - lo < 2 ^ steps) (h' : hi - lo < 2 ^ steps') :
  t.search line steps lo hi = t.search line steps' lo hi
  := by
  induction steps generalizing steps' lo hi with
  | zero =>
      have hle : hi ≤ lo := by omega
      rw [search_of_le t line hle, search_of_le t line hle]
  | succ steps ih =>
      cases steps' with
      | zero =>
          have hle : hi ≤ lo := by omega
          rw [search_of_le t line hle, search_of_le t line hle]
      | succ steps' =>
          rw [Nat.pow_succ] at h h'
          -- either part has at most half of the entries
          have hright : t.search line steps ((lo + hi) / 2 + 1) hi
              = t.search line steps' ((lo + hi) / 2 + 1) hi := by
            apply ih
            · omega
            · omega
          have hleft : t.search line steps lo ((lo + hi) / 2)
              = t.search line steps' lo ((lo + hi) / 2) := by
            apply ih
            · omega
            · omega
          simp only [search, hright, hleft]

theorem get?_eq_search_log2 (t : LineTable α) (line : LineId) :
  t.get? line = t.search line (t.size.log2 + 1) 0 t.size
  := by
  apply search_eq_of_lt_two_pow
  · apply Nat.lt_trans (Nat.lt_succ_self _) Nat.lt_two_pow_self
  · apply Nat.lt_log2_self

/-! ### The table of a sequence of insertions -/

theorem increasing_ofInserts (inserts : List (LineId × α)) :
  (ofInserts inserts).Increasing
  := keepLast_increasing (pairwise_mergeSort_line inserts)

theorem mem_toList_ofInserts (inserts : List (LineId × α)) (e : LineId × α) :
  e ∈ (ofInserts inserts).toList ↔ (inserts.filter (·.1 = e.1)).getLast? = some e
  := by
  rw [← filter_mergeSort]
  apply mem_keepLast (pairwise_mergeSort_line inserts)

/-- Looking up a line yields the value inserted last for it. -/
theorem get?_ofInserts (inserts : List (LineId × α)) (line : LineId) :
  (ofInserts inserts).get? line = ((inserts.filter (·.1 = line)).getLast?).map (·.2)
  := by
  apply Option.ext
  intro value
  rw [get?_eq_some_iff (increasing_ofInserts inserts), mem_toList_ofInserts]
  constructor
  · intro h
    simp only at h
    rw [h]
    rfl
  · rw [Option.map_eq_some_iff]
    rintro ⟨⟨found, v⟩, h, rfl⟩
    have hmem := List.mem_of_getLast? h
    simp only [List.mem_filter, decide_eq_true_eq] at hmem
    rw [← hmem.2]
    rw [← hmem.2] at h
    apply h

theorem mem_of_get?_ofInserts {inserts : List (LineId × α)} {line : LineId} {value : α}
    (h : (ofInserts inserts).get? line = some value) :
  (line, value) ∈ inserts
  := by
  rw [get?_ofInserts] at h
  obtain ⟨x, hx, rfl⟩ := Option.map_eq_some_iff.mp h
  obtain ⟨hmem, hline⟩ := List.mem_filter.mp (List.mem_of_getLast? hx)
  obtain rfl := of_decide_eq_true hline
  apply hmem

/-- If no line is inserted twice, the table has exactly the insertions. -/
theorem get?_ofInserts_of_nodup {inserts : List (LineId × α)}
    (h : (inserts.map (·.1)).Nodup) {line : LineId} {value : α} :
  (ofInserts inserts).get? line = some value ↔ (line, value) ∈ inserts
  := by
  rw [get?_eq_some_iff (increasing_ofInserts inserts), mem_toList_ofInserts]
  constructor
  · intro hlast
    have hmem := List.mem_of_getLast? hlast
    rw [List.mem_filter] at hmem
    apply hmem.1
  · intro hmem
    have hmem' : (line, value) ∈ inserts.filter (·.1 = line) := by
      simpa using hmem
    obtain ⟨last, hlast⟩ : ∃ e, (inserts.filter (·.1 = line)).getLast? = some e :=
      ⟨_, List.getLast?_eq_some_getLast (List.ne_nil_of_mem hmem')⟩
    have hin := List.mem_filter.mp (List.mem_of_getLast? hlast)
    have heq : last = (line, value) := by
      apply List.inj_on_of_nodup_map h hin.1 hmem
      simpa using hin.2
    rw [hlast, heq]

/-- Without repetitions the entries are the insertions. -/
theorem toList_ofInserts_perm {inserts : List (LineId × α)} (h : (inserts.map (·.1)).Nodup) :
  (ofInserts inserts).toList.Perm inserts
  := by
  have hincreasing := increasing_ofInserts inserts
  apply (List.perm_ext_iff_of_nodup _ h.of_map).mpr
  · intro e
    rw [← get?_eq_some_iff hincreasing, get?_ofInserts_of_nodup h]
  · apply hincreasing.imp
    intro e f hlt heq
    apply hlt.ne (congrArg Prod.fst heq)

theorem contains_iff {t : LineTable α} (ht : t.Increasing) {line : LineId} :
  t.contains line = true ↔ line ∈ t.toList.map (·.1)
  := by
  rw [contains, Option.isSome_iff_exists, List.mem_map]
  constructor
  · rintro ⟨value, h⟩
    use (line, value), (get?_eq_some_iff ht).mp h
  · rintro ⟨⟨_, value⟩, h, rfl⟩
    use value
    apply (get?_eq_some_iff ht).mpr h

/-- Tables that have values for the same lines list the same lines. -/
theorem lines_eq {β : Type} {t : LineTable α} {u : LineTable β} (ht : t.Increasing)
    (hu : u.Increasing) (h : ∀ line, t.contains line = u.contains line) :
  t.toList.map (·.1) = u.toList.map (·.1)
  := by
  apply List.Pairwise.eq_of_mem_iff (r := (· < ·)) (List.pairwise_map.mpr ht)
    (List.pairwise_map.mpr hu)
  intro line
  rw [← contains_iff ht, ← contains_iff hu, h]

theorem eq_of_perm {t u : LineTable α} (ht : t.Increasing) (hu : u.Increasing)
    (h : t.toList.Perm u.toList) :
  t = u
  := by
  have hlist : t.toList = u.toList := by
    apply h.eq_of_pairwise _ ht hu
    intro x y _ _ hxy hyx
    cases lt_asymm hxy hyx
  obtain ⟨⟨xs⟩⟩ := t
  obtain ⟨⟨ys⟩⟩ := u
  cases hlist
  rfl

theorem nodup_lines {t : LineTable α} (ht : t.Increasing) :
  (t.toList.map (·.1)).Nodup
  := by
  rw [List.Nodup, List.pairwise_map]
  apply ht.imp
  intro e f hlt
  apply hlt.ne

/-! ### The values inserted last -/

/-- The last insertion for a line has no other one for it behind it. -/
theorem get?_ofInserts_eq_some_iff {inserts : List (LineId × α)} {line : LineId} {value : α} :
  (ofInserts inserts).get? line = some value
    ↔ ∃ before after, inserts = before ++ (line, value) :: after ∧ line ∉ after.map (·.1)
  := by
  rw [get?_eq_some_iff (increasing_ofInserts inserts), mem_toList_ofInserts,
    ← List.head?_reverse, ← List.filter_reverse, List.head?_filter,
    List.find?_eq_some_iff_append]
  constructor
  · rintro ⟨-, behind, front, hreverse, hbehind⟩
    use front.reverse, behind.reverse
    constructor
    · rw [← List.reverse_reverse inserts, hreverse]
      simp
    · rw [List.map_reverse, List.mem_reverse, List.mem_map]
      rintro ⟨e, he, rfl⟩
      simpa using hbehind e he
  · rintro ⟨before, after, rfl, hafter⟩
    refine ⟨decide_eq_true rfl, after.reverse, before.reverse, ?_, ?_⟩
    · simp
    · intro e he
      rw [Bool.not_eq_true', decide_eq_false_iff_not]
      rintro rfl
      apply hafter (List.mem_map_of_mem (List.mem_reverse.mp he))

theorem contains_ofInserts_iff {inserts : List (LineId × α)} {line : LineId} :
  (ofInserts inserts).contains line = true ↔ line ∈ inserts.map (·.1)
  := by
  rw [contains, get?_ofInserts, Option.isSome_map, List.getLast?_isSome, Ne,
    List.filter_eq_nil_iff]
  simp

/-- A table has one entry for every line that was inserted, with the value inserted last for it. -/
structure Settles (t : LineTable α) (inserts : List (LineId × α)) : Prop where
  increasing : t.Increasing
  mem_lines_iff : ∀ line, line ∈ t.toList.map (·.1) ↔ line ∈ inserts.map (·.1)
  size_eq : t.size = (inserts.map (·.1)).dedup.length
  /-- The value of a line is that of an insertion with none for the line behind it. -/
  get?_eq_some_iff : ∀ line value, t.get? line = some value
    ↔ ∃ before after, inserts = before ++ (line, value) :: after ∧ line ∉ after.map (·.1)
  get?_eq_none_iff : ∀ line, t.get? line = none ↔ line ∉ inserts.map (·.1)
  /-- A line is looked up by halving the table until nothing is left of it. -/
  get?_eq_search : ∀ line, t.get? line = t.search line (t.size.log2 + 1) 0 t.size

theorem ofInserts_settles (inserts : List (LineId × α)) :
  (ofInserts inserts).Settles inserts
  := by
  have hincreasing := increasing_ofInserts inserts
  have hlines : ∀ line, line ∈ (ofInserts inserts).toList.map (·.1) ↔ line ∈ inserts.map (·.1) := by
    intro line
    rw [← contains_iff hincreasing, contains_ofInserts_iff]
  constructor
  · apply hincreasing
  · apply hlines
  · have hperm : ((ofInserts inserts).toList.map (·.1)).Perm (inserts.map (·.1)).dedup := by
      apply (List.perm_ext_iff_of_nodup (nodup_lines hincreasing) (List.nodup_dedup _)).mpr
      intro line
      rw [hlines, List.mem_dedup]
    rw [← hperm.length_eq, List.length_map]
    rfl
  · intro line value
    apply get?_ofInserts_eq_some_iff
  · intro line
    rw [← contains_ofInserts_iff, contains, Option.not_isSome_iff_eq_none]
  · intro line
    apply get?_eq_search_log2

example :
  (ofInserts [(3, 30), (0, 0), (2, 20), (0, 1), (2, 21), (2, 22)]).toList
    = [(0, 1), (2, 22), (3, 30)]
  := by cbv

end LineTable

end Pep10
