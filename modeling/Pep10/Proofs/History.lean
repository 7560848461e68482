import Pep10.Proofs.Translation
import Mathlib.Data.List.Induction

/-!
# Histories of a symbol table

A symbol table starts empty and is changed by updates, in any order.  Whatever they are, the table
has one entry for each name that was mentioned, in the order of first mention.  So a position that
was given out for a name stays the position of that name.  The state of an entry counts how often
its name was defined.  The other updates change one field of one entry.
-/

namespace Pep10

/-! ### Updates -/

/-- A change to a symbol table. -/
inductive Update where
  | define (name : String)
  | reference (name : String)
  | setValue (i : SymbolId) (value : SymbolValue)
  | setBinding (i : SymbolId) (binding : Binding)
  | setSection (i : SymbolId) (index : Nat)
  deriving DecidableEq

namespace Update

/-- The name that an update mentions. -/
def name? : Update → Option String
  | .define name => some name
  | .reference name => some name
  | _ => none

/-- The name that an update defines. -/
def defined? : Update → Option String
  | .define name => some name
  | _ => none

theorem defined?_eq_some_iff {u : Update} {name : String} :
  u.defined? = some name ↔ u = .define name
  := by
  cases u with
  | define n => simp [defined?]
  | _ => simp [defined?]

end Update

namespace SymbolTable

/-- The table after an update. -/
def update (t : SymbolTable) : Update → SymbolTable
  | .define name => (t.define name).2
  | .reference name => (t.reference name).2
  | .setValue i value => t.setValue i value
  | .setBinding i binding => t.setBinding i binding
  | .setSection i index => t.setSection i index

/-- The position that an update gives out. -/
def issued? (t : SymbolTable) : Update → Option SymbolId
  | .define name => some (t.define name).1
  | .reference name => some (t.reference name).1
  | _ => none

/-- The table with the given identifier after some updates. -/
def after (id : TableId) (updates : List Update) : SymbolTable :=
  updates.foldl update { id }

variable {t : SymbolTable} {name : String} {i : SymbolId} {u : Update}
  {mentioned defined : List String}

theorem after_append (id : TableId) (updates more : List Update) :
  after id (updates ++ more) = more.foldl update (after id updates)
  := List.foldl_append

/-- An update defines a name, mentions it, or changes something else about an entry. -/
theorem update_cases (u : Update) :
  (∃ name, u = .define name) ∨ (∃ name, u = .reference name)
    ∨ u.name? = none ∧ u.defined? = none
      ∧ ∃ i f, (∀ e : SymbolEntry, (f e).name = e.name ∧ (f e).state = e.state)
        ∧ ∀ t : SymbolTable, t.update u = t.modify i f
  := by
  cases u with
  | define name =>
      left
      exact ⟨name, rfl⟩
  | reference name =>
      right
      left
      exact ⟨name, rfl⟩
  | setValue i value =>
      right
      right
      exact ⟨rfl, rfl, i, fun e => { e with value }, fun _ => ⟨rfl, rfl⟩, fun _ => rfl⟩
  | setBinding i binding =>
      right
      right
      exact ⟨rfl, rfl, i, fun e => { e with binding }, fun _ => ⟨rfl, rfl⟩, fun _ => rfl⟩
  | setSection i index =>
      right
      right
      exact ⟨rfl, rfl, i, fun e => { e with sectionIndex? := some index }, fun _ => ⟨rfl, rfl⟩,
        fun _ => rfl⟩

/-! ### Positions for ever -/

/-- Names stay where they are. -/
theorem precedes_update (t : SymbolTable) (u : Update) :
  t.Precedes (t.update u)
  := by
  obtain ⟨name, rfl⟩ | ⟨name, rfl⟩ | ⟨-, -, i, f, hf, hupdate⟩ := update_cases u
  · apply (t.grows_define name).1.precedes
  · apply (t.grows_reference name).1.precedes
  · rw [hupdate]
    have hnames := names_modify t i fun e => (hf e).1
    exact ⟨rfl, hnames ▸ List.prefix_rfl⟩

theorem precedes_foldl_update (t : SymbolTable) (updates : List Update) :
  t.Precedes (updates.foldl update t)
  := by
  induction updates generalizing t with
  | nil => apply Precedes.refl
  | cons u updates ih => apply (t.precedes_update u).trans (ih _)

/-- A position that is given out is that of the name it is given out for. -/
theorem name?_of_issued (h : t.issued? u = some i) :
  (t.update u).name? i = u.name?
  := by
  cases u with
  | define name =>
      cases h
      apply (t.grows_define name).2
  | reference name =>
      cases h
      apply (t.grows_reference name).2
  | _ => cases h

/-! ### Names by first mention, and their definitions -/

theorem eraseDups_concat (xs : List String) (x : String) :
  (xs ++ [x]).eraseDups = if x ∈ xs then xs.eraseDups else xs.eraseDups ++ [x]
  := by
  rw [List.eraseDups_append]
  split
  · next hmem => simp [List.removeAll, hmem]
  · next hmem => simp [List.removeAll, List.eraseDups_cons, hmem]

/-- A table with one entry for each name that was mentioned, in the order of first mention, and
with the number of the definitions of each. -/
structure Tallies (mentioned defined : List String) (t : SymbolTable) : Prop where
  names_eq : t.names = mentioned.eraseDups
  nodup_names : t.names.Nodup
  counts : t.Counts defined
  subset : defined ⊆ mentioned

namespace Tallies

theorem mem_names_iff (h : Tallies mentioned defined t) :
  name ∈ t.names ↔ name ∈ mentioned
  := by
  rw [h.names_eq, List.mem_eraseDups]

theorem empty (id : TableId) :
  Tallies [] [] { id }
  where
  names_eq := rfl
  nodup_names := List.nodup_nil
  counts := by simp [Counts]
  subset := List.Subset.refl _

theorem reference (h : Tallies mentioned defined t) (name : String) :
  Tallies (mentioned ++ [name]) defined (t.reference name).2
  := by
  have hsubset := List.Subset.trans h.subset (List.subset_append_left mentioned [name])
  by_cases hmem : name ∈ t.names
  · rw [SymbolTable.reference, find?_eq_some_position hmem]
    refine { names_eq := ?_, nodup_names := h.nodup_names, counts := h.counts, subset := hsubset }
    rw [eraseDups_concat, if_pos (h.mem_names_iff.mp hmem), h.names_eq]
  · rw [SymbolTable.reference, find?_eq_none hmem]
    have hnew : name ∉ mentioned := mt h.mem_names_iff.mpr hmem
    refine { names_eq := ?_, nodup_names := ?_, counts := ?_, subset := hsubset }
    · rw [names_add, eraseDups_concat, if_neg hnew, h.names_eq]
    · rw [names_add]
      apply nodup_names_add h.nodup_names hmem
    · apply h.counts.add
      apply mt (@h.subset name) hnew

theorem define (h : Tallies mentioned defined t) (name : String) :
  Tallies (mentioned ++ [name]) (defined ++ [name]) (t.define name).2
  := by
  have href := h.reference name
  have hi := (t.grows_reference name).2
  have hnames : (t.define name).2.names = (t.reference name).2.names :=
    names_modify _ _ fun _ => rfl
  refine { names_eq := ?_, nodup_names := ?_, counts := ?_, subset := ?_ }
  · rw [hnames, href.names_eq]
  · rw [hnames]
    apply href.nodup_names
  · apply href.counts.next href.nodup_names hi
  · apply List.append_subset.mpr
    use href.subset
    apply List.subset_append_right

/-- Changing an entry, but neither its name nor its state, does not count. -/
theorem modify (h : Tallies mentioned defined t) {f : SymbolEntry → SymbolEntry}
    (hname : ∀ e, (f e).name = e.name) (hstate : ∀ e, (f e).state = e.state) :
  Tallies mentioned defined (t.modify i f)
  where
  names_eq := by rw [names_modify t i hname, h.names_eq]
  nodup_names := by
    rw [names_modify t i hname]
    apply h.nodup_names
  counts := h.counts.modify hname hstate
  subset := h.subset

theorem update (h : Tallies mentioned defined t) (u : Update) :
  Tallies (mentioned ++ u.name?.toList) (defined ++ u.defined?.toList) (t.update u)
  := by
  obtain ⟨name, rfl⟩ | ⟨name, rfl⟩ | ⟨hname, hdefined, i, f, hf, hupdate⟩ := update_cases u
  · apply h.define
  · have hdefined : (Update.reference name).defined? = none := rfl
    rw [hdefined, Option.toList_none, List.append_nil]
    apply h.reference
  · rw [hname, hdefined, hupdate, Option.toList_none, List.append_nil, List.append_nil]
    apply h.modify (fun e => (hf e).1) fun e => (hf e).2

end Tallies

/-- Whatever the updates, the table has the names and counts the definitions. -/
theorem tallies_after (id : TableId) (updates : List Update) :
  Tallies (updates.filterMap (·.name?)) (updates.filterMap (·.defined?)) (after id updates)
  := by
  induction updates using List.reverseRecOn with
  | nil => apply Tallies.empty
  | append_singleton updates u ih =>
      rw [after_append, List.filterMap_append, List.filterMap_append]
      have hname : [u].filterMap (·.name?) = u.name?.toList := by
        cases h : u.name? with
        | none => simp [h]
        | some name => simp [h]
      have hdefined : [u].filterMap (·.defined?) = u.defined?.toList := by
        cases h : u.defined? with
        | none => simp [h]
        | some name => simp [h]
      rw [hname, hdefined]
      apply ih.update

/-! ### The law of histories -/

theorem find?_eq_some_iff (hnodup : t.names.Nodup) :
  t.find? name = some i ↔ t.name? i = some name
  := by
  constructor
  · intro h
    by_cases hmem : name ∈ t.names
    · rw [find?_eq_some_position hmem] at h
      cases h
      apply name?_position hmem
    · rw [find?_eq_none hmem] at h
      cases h
  · intro h
    rw [find?_eq_some_position (name_mem_of_name? h), position_eq_of_name? hnodup h]

/-- A table differs from another one by a change of the entry at a position.  Past the end there is
no such entry, and nothing is changed. -/
structure ChangesEntry (i : SymbolId) (f : SymbolEntry → SymbolEntry) (t t' : SymbolTable) :
    Prop where
  id_eq : t'.id = t.id
  size_eq : t'.size = t.size
  entry_eq : t'.get? i = (t.get? i).map f
  others_eq : ∀ j, j ≠ i → t'.get? j = t.get? j
  eq_of_size_le : t.size ≤ i → t' = t

theorem changesEntry_modify (t : SymbolTable) (i : SymbolId) (f : SymbolEntry → SymbolEntry) :
  ChangesEntry i f t (t.modify i f)
  where
  id_eq := rfl
  size_eq := List.length_modify ..
  entry_eq := by
    rw [get?, modify, List.getElem?_modify_eq]
    rfl
  others_eq j hj := by
    rw [get?, modify, List.getElem?_modify_ne _ _ hj.symm]
    rfl
  eq_of_size_le h := by
    rw [modify, List.modify_eq_self h]

/-- What a table is after some updates. -/
structure HistoryLaw (id : TableId) (updates : List Update) : Prop where
  names_eq : (after id updates).names = (updates.filterMap (·.name?)).eraseDups
  find?_iff : ∀ name i,
    (after id updates).find? name = some i ↔ (after id updates).name? i = some name
  issued : ∀ u i, (after id updates).issued? u = some i →
    ∀ more, (after id (updates ++ u :: more)).name? i = u.name?
  kept : ∀ i name, (after id updates).name? i = some name →
    ∀ more, (after id (updates ++ more)).name? i = some name
  state_eq : ∀ e ∈ (after id updates).entries,
    e.state = .ofCount (updates.count (.define e.name))
  setValue : ∀ i value, ChangesEntry i (fun e => { e with value }) (after id updates)
    (after id (updates ++ [.setValue i value]))
  setBinding : ∀ i binding, ChangesEntry i (fun e => { e with binding }) (after id updates)
    (after id (updates ++ [.setBinding i binding]))
  setSection : ∀ i index, ChangesEntry i (fun e => { e with sectionIndex? := some index })
    (after id updates) (after id (updates ++ [.setSection i index]))

/-- The law of histories holds of all of them. -/
theorem historyLaw (id : TableId) (updates : List Update) :
  HistoryLaw id updates
  where
  names_eq := (tallies_after id updates).names_eq
  find?_iff _ _ := find?_eq_some_iff (tallies_after id updates).nodup_names
  issued u i h more := by
    rw [after_append, List.foldl_cons]
    obtain ⟨name, hname⟩ : ∃ name, u.name? = some name := by
      cases u with
      | define name => exact ⟨name, rfl⟩
      | reference name => exact ⟨name, rfl⟩
      | _ => cases h
    rw [hname]
    apply (precedes_foldl_update _ more).name?_eq
    rw [name?_of_issued h, hname]
  kept i name h more := by
    rw [after_append]
    apply (precedes_foldl_update _ more).name?_eq h
  state_eq e he := by
    rw [(tallies_after id updates).counts e he, List.count_filterMap, List.count_eq_countP]
    congr 1
    apply List.countP_congr
    intro u _
    rw [beq_iff_eq, beq_iff_eq, Update.defined?_eq_some_iff]
  setValue i value := by
    rw [after_append]
    apply changesEntry_modify
  setBinding i binding := by
    rw [after_append]
    apply changesEntry_modify
  setSection i index := by
    rw [after_append]
    apply changesEntry_modify

end SymbolTable

end Pep10
