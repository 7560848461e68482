import Pep10.Proofs.Layout.Law
import Pep10.Proofs.Layout.Trace

/-!
# Definitions

What a line gives to the symbol it declares.  An `.EQUATE` gives it the value of the operand, and
any other line the place where it was put.  Entering definitions in a table changes the entries of
the symbols that they define and no others, whatever the order in which lines were placed.
-/

namespace Pep10

/-! ### Entering definitions -/

/-- An entry after a definition of its symbol. -/
def SymbolEntry.define (e : SymbolEntry) (d : Definition) : SymbolEntry :=
  { e with value := d.value, sectionIndex? := d.sectionIndex?.or e.sectionIndex? }

@[simp]
theorem SymbolEntry.define_define (e : SymbolEntry) (d : Definition) :
  (e.define d).define d = e.define d
  := by
  simp only [define]
  cases d.sectionIndex? with
  | none => rfl
  | some index => rfl

namespace SymbolTable

variable {t : SymbolTable} {i : SymbolId}

theorem get?_modify (t : SymbolTable) (i j : SymbolId) (f : SymbolEntry → SymbolEntry) :
  (t.modify i f).get? j = (t.get? j).map fun e => if i = j then f e else e
  := by
  rw [get?, modify, List.getElem?_modify]
  rfl

theorem get?_enter (t : SymbolTable) (d : Definition) (i : SymbolId) :
  (t.enter d).get? i = (t.get? i).map fun e => if d.symbol = i then e.define d else e
  := by
  rw [enter]
  cases hindex : d.sectionIndex? with
  | none =>
      simp [setValue, get?_modify, SymbolEntry.define, hindex]
  | some index =>
      simp only [setSection, setValue, get?_modify, Option.map_map]
      congr 1
      funext e
      by_cases h : d.symbol = i
      · simp [SymbolEntry.define, hindex, h]
      · simp [h]

theorem id_foldl_enter (ds : List Definition) (t : SymbolTable) :
  (ds.foldl enter t).id = t.id
  := by
  induction ds generalizing t with
  | nil => rfl
  | cons d ds ih =>
      rw [List.foldl_cons, ih, enter]
      split
      · rfl
      · rfl

/-- At one entry, only the definitions of its symbol are entered. -/
theorem get?_foldl_enter (ds : List Definition) (t : SymbolTable) (i : SymbolId) :
  (ds.foldl enter t).get? i
    = (t.get? i).map fun e => (ds.filter (·.symbol = i)).foldl SymbolEntry.define e
  := by
  induction ds generalizing t with
  | nil => simp
  | cons d ds ih =>
      rw [List.foldl_cons, ih, get?_enter, Option.map_map]
      congr 1
      funext e
      by_cases h : d.symbol = i
      · simp [h]
      · simp [h]

/-- A symbol that is not defined keeps its entry. -/
theorem get?_foldl_enter_of_ne {ds : List Definition} (h : ∀ d ∈ ds, d.symbol ≠ i) :
  (ds.foldl enter t).get? i = t.get? i
  := by
  have hnone : ds.filter (·.symbol = i) = [] := by
    apply List.filter_eq_nil_iff.mpr
    simpa using h
  rw [get?_foldl_enter, hnone]
  apply Option.map_id'

theorem foldl_define_eq {ds : List Definition} {d : Definition} (hne : ds ≠ [])
    (hall : ∀ d' ∈ ds, d' = d) (e : SymbolEntry) :
  ds.foldl SymbolEntry.define e = e.define d
  := by
  induction ds generalizing e with
  | nil => cases hne rfl
  | cons d' ds ih =>
      rw [List.forall_mem_cons] at hall
      obtain ⟨rfl, hds⟩ := hall
      rw [List.foldl_cons]
      by_cases hds' : ds = []
      · rw [hds', List.foldl_nil]
      · rw [ih hds' hds, SymbolEntry.define_define]

/-- A symbol gets its definition, if there is only one. -/
theorem get?_foldl_enter_of_mem {ds : List Definition} {d : Definition} (hd : d ∈ ds)
    (hall : ∀ d' ∈ ds, d'.symbol = d.symbol → d' = d) :
  (ds.foldl enter t).get? d.symbol = (t.get? d.symbol).map (·.define d)
  := by
  have hmem : d ∈ ds.filter (·.symbol = d.symbol) := by simpa using hd
  rw [get?_foldl_enter]
  congr 1
  funext e
  apply foldl_define_eq (List.ne_nil_of_mem hmem)
  intro d' hd'
  obtain ⟨hd', hsymbol⟩ := List.mem_filter.mp hd'
  apply hall d' hd' (of_decide_eq_true hsymbol)

end SymbolTable

/-! ### The definition of a line -/

namespace Pass

variable {pass : Pass} {base next : UInt16} {l : NumberedLine} {p : Placement} {i : SymbolId}

/-- A line defines the symbol it declares. -/
theorem symbol_of_place (h : pass.place base l = .ok (p, next)) :
  p.definition?.map (·.symbol) = l.line.symbol?
  := by
  have hlabel : ∀ address size, (pass.label l address size).map (·.symbol) = l.line.symbol? := by
    intro address size
    simp [label, Function.comp_def]
  obtain ⟨_, _, _, rfl⟩ | ⟨a, d?, _, hequate, _, rfl⟩ | ⟨_, _, _, _, rfl⟩
    | ⟨_, _, _, _, _, _, rfl⟩ := place_cases h
  · apply hlabel
  · rw [equate] at hequate
    split at hequate
    · next hnone =>
      cases hequate
      apply hnone.symm
    · next symbol hsymbol =>
      obtain ⟨value, -, h⟩ := Except.bind_eq_ok_iff.mp hequate
      cases h
      apply hsymbol.symm
  · apply hlabel
  · apply hlabel

/-- An `.EQUATE` gives its symbol the value of the operand. -/
theorem definition_of_equate {a : Argument} (h : pass.place base l = .ok (p, next))
    (hkind : l.line.kind = .equate a) (hi : l.line.symbol? = some i) :
  ∃ value, equateValue pass.owner l.id a = .ok value ∧ p.definition? = some ⟨i, value, none⟩
  := by
  simp only [place, hkind, equate, hi, Except.bind_eq_ok_iff] at h
  obtain ⟨_, ⟨value, hvalue, ⟨⟩⟩, ⟨⟩⟩ := h
  use value, hvalue

/-- Any other line gives its symbol the place where the line is. -/
theorem definition_of_label (h : pass.place base l = .ok (p, next))
    (hkind : ∀ a, l.line.kind ≠ .equate a) :
  p.definition? = pass.label l p.address p.size
  := by
  obtain ⟨_, _, _, rfl⟩ | ⟨a, _, hequate, _⟩ | ⟨_, _, _, _, rfl⟩ | ⟨_, _, _, _, _, _, rfl⟩ :=
    place_cases h
  · rfl
  · cases hkind a hequate
  · rfl
  · rfl

end Pass

/-! ### Definitions of a layout -/

/-- A placement of a section is made by a pass over that section. -/
theorem Section.LaidOut.exists_place {owner : TableId} {index : Nat} {s : Section}
    {ps : List Placement} (h : s.LaidOut owner index ps) :
  ∀ p ∈ ps, ∃ direction next, Pass.place ⟨owner, index, direction⟩ p.base p.line = .ok (p, next)
  := by
  obtain ⟨a, h⟩ := h
  cases h with
  | forward hwalk _ =>
      intro p hp
      exact ⟨_, Pass.exists_place_of_mem_laid hwalk hp⟩
  | backward hwalk _ =>
      intro p hp
      exact ⟨_, Pass.exists_place_of_mem_laid hwalk hp⟩
  | anchor hbefore hafter _ =>
      rw [List.forall_mem_append]
      constructor
      · intro p hp
        exact ⟨_, Pass.exists_place_of_mem_laid hbefore hp⟩
      · intro p hp
        exact ⟨_, Pass.exists_place_of_mem_laid hafter hp⟩

section

variable {program : Program} {symbols : SymbolTable} {initial : Heading}
  {sections laid : List Section} {base : UInt16}

/-- Every line is placed by a pass over the section that holds it. -/
theorem exists_place_of_mem_section (hsections : program.sections symbols initial = .ok sections)
    (hassign : (assign symbols.id sections base).outcome = .ok laid) {k : Nat} {s : Section}
    (hs : laid[k]? = some s) {l : NumberedLine} (hl : l ∈ s.lines) :
  ∃ p ∈ (assign symbols.id sections base).placements, p.line = l
    ∧ ∃ direction next, Pass.place ⟨symbols.id, k, direction⟩ p.base l = .ok (p, next)
  := by
  obtain ⟨a, progress, below, above, rfl, hfrontier, -⟩ := assign_sides hsections hassign
  have hlength : progress.sections.length = sections.length := by
    simpa using congrArg List.length hfrontier.unplaced_eq
  have hlt : k < sections.length := by
    rw [← hlength]
    apply (List.getElem?_eq_some_iff.mp hs).1
  obtain ⟨ps, hlaid, hsub⟩ := hfrontier.laidOut k s (Nat.zero_le k) hlt hs
  have hlaid : s.LaidOut symbols.id k ps := ⟨a, hlaid⟩
  rw [← hlaid.lines] at hl
  obtain ⟨p, hp, rfl⟩ := List.mem_map.mp hl
  exact ⟨p, hsub hp, rfl, hlaid.exists_place p hp⟩

/-- The definitions of a layout are those of the symbols that the lines declare. -/
theorem symbols_of_definitions (hsections : program.sections symbols initial = .ok sections)
    (hassign : (assign symbols.id sections base).outcome = .ok laid) :
  (((assign symbols.id sections base).placements.filterMap (·.definition?)).map (·.symbol)).Perm
    (program.filterMap (·.symbol?))
  := by
  have hplaced : ∀ p ∈ (assign symbols.id sections base).placements,
      p.definition?.map (·.symbol) = p.line.line.symbol? := by
    intro p hp
    obtain ⟨pass, next, hplace⟩ := exists_place_of_mem_assign p hp
    apply Pass.symbol_of_place hplace
  have hlines : ((assign symbols.id sections base).placements.map (·.line)).Perm
      program.numbered :=
    (assign_lines_perm hsections hassign).trans (Program.sectionOrder_perm hsections)
  have hnumbered : program.numbered.filterMap (·.line.symbol?) = program.filterMap (·.symbol?) := by
    rw [Program.numbered, List.filterMap_map]
    conv_rhs => rw [← List.zipIdx_map_fst 0 program, List.filterMap_map]
    rfl
  rw [List.map_filterMap, List.filterMap_congr hplaced, ← hnumbered]
  have := hlines.filterMap (·.line.symbol?)
  rw [List.filterMap_map] at this
  apply this

end

end Pep10
