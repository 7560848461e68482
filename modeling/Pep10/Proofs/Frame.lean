import Pep10.Proofs.Reassembly
import Pep10.Proofs.Splitting

/-!
# What an assembly writes

An assembly writes into the symbol table it is given, first to bind imports and then each time that
it places a line, and it may fail at any line.  Whatever becomes of it, the table keeps its entries
in their order, with their names, states and bindings.  A value is written only for an import that
a linked table exports or for a symbol that a line declares, and a section only for a label.

Each write has a frame, the entries outside of which it changes nothing, and frames compose.  To
frame the definitions of a layout that fails, every line in its trace is traced back to the program.
-/

namespace Pep10

/-! ### Lines in a trace -/

namespace Traced

variable {α β : Type} {lines : List NumberedLine}

/-- Every line that is placed is one of `lines`. -/
def Within (lines : List NumberedLine) (t : Traced α) : Prop :=
  ∀ p ∈ t.placements, p.line ∈ lines

theorem within_pure (a : α) :
  Within lines (pure a)
  := by
  rintro p ⟨⟩

/-- After a failure nothing is placed. -/
theorem Within.bind {t : Traced α} {f : α → Traced β} (ht : t.Within lines)
    (hf : ∀ a, t.outcome = .ok a → (f a).Within lines) :
  (t >>= f).Within lines
  := by
  rcases t with ⟨ps, e | a⟩
  · exact ht
  · exact List.forall_mem_append.mpr ⟨ht, hf a rfl⟩

/-- Steps whose results have a property, on which the next steps rely. -/
theorem within_foldlM {f : α → β → Traced α} {P : α → Prop}
    (hf : ∀ a b, P a → (f a b).Within lines)
    (hP : ∀ a b a', P a → (f a b).outcome = .ok a' → P a') (bs : List β) {a : α} (ha : P a) :
  (bs.foldlM f a).Within lines
  := by
  induction bs generalizing a with
  | nil => apply within_pure
  | cons b bs ih =>
      rw [List.foldlM_cons]
      apply (hf a b ha).bind
      intro a' ha'
      apply ih (hP a b a' ha ha')

end Traced

namespace Pass

theorem within_visit (pass : Pass) (base : UInt16) (lines : List NumberedLine) :
  (pass.visit base lines).Within lines
  := by
  induction lines generalizing base with
  | nil => apply Traced.within_pure
  | cons l lines ih =>
      rw [visit]
      split
      · rintro p ⟨⟩
      · next p next hplace =>
        intro q hq
        rcases List.mem_cons.mp hq with rfl | hq
        · rw [place_line hplace]
          apply List.mem_cons_self
        · apply List.mem_cons_of_mem l (ih next q hq)

theorem within_walk (pass : Pass) (base : UInt16) {lines lines' : List NumberedLine}
    (h : lines ⊆ lines') :
  (pass.walk base lines).Within lines'
  := by
  intro p hp
  apply h
  have hvisit := pass.within_visit base (pass.direction.order lines) p hp
  cases hdirection : pass.direction with
  | forward => simpa [hdirection, Direction.order] using hvisit
  | backward => simpa [hdirection, Direction.order] using hvisit

end Pass

namespace Progress

variable {owner : TableId} {p p' : Progress}

theorem lines_subset (p : Progress) (index : Nat) :
  p.lines index ⊆ sectionOrder p.sections
  := by
  rw [lines]
  cases hs : p.sections[index]? with
  | none => apply List.nil_subset
  | some s =>
      intro l hl
      apply List.mem_flatMap.mpr ⟨s, List.mem_of_getElem? hs, hl⟩

theorem within_step (owner : TableId) (p : Progress) (s : Step) :
  (p.step owner s).Within (sectionOrder p.sections)
  := by
  cases s with
  | anchor index split origin =>
      apply (Pass.within_walk _ _ _).bind
      · intro before _
        apply (Pass.within_walk _ _ _).bind
        · intro after _
          apply Traced.within_pure
        · intro l hl
          apply p.lines_subset index (List.mem_of_mem_drop hl)
      · intro l hl
        apply p.lines_subset index (List.mem_of_mem_take hl)
  | walk index direction =>
      cases direction with
      | forward =>
          apply (Pass.within_walk _ _ (p.lines_subset index)).bind
          intro w _
          apply Traced.within_pure
      | backward =>
          apply (Pass.within_walk _ _ (p.lines_subset index)).bind
          intro w _
          apply Traced.within_pure

theorem sectionOrder_setBounds (p : Progress) (index : Nat) (bounds : Bounds) :
  sectionOrder (p.setBounds index bounds).sections = sectionOrder p.sections
  := by
  have hlines := congrArg (List.flatMap Section.lines) (p.unplaced_setBounds index bounds)
  rw [List.flatMap_map, List.flatMap_map] at hlines
  exact hlines

/-- A step leaves the lines of all sections as they are. -/
theorem sectionOrder_step {s : Step} (h : (p.step owner s).outcome = .ok p') :
  sectionOrder p'.sections = sectionOrder p.sections
  := by
  cases s with
  | anchor index split origin =>
      obtain ⟨before, after, -, -, rfl, -⟩ := step_anchor_eq_ok h
      apply sectionOrder_setBounds
  | walk index direction =>
      cases direction with
      | forward =>
          obtain ⟨w, -, rfl, -⟩ := step_forward_eq_ok h
          apply sectionOrder_setBounds
      | backward =>
          obtain ⟨w, -, rfl, -⟩ := step_backward_eq_ok h
          apply sectionOrder_setBounds

end Progress

/-- A layout places lines of its sections only, also when it fails. -/
theorem within_assign (owner : TableId) (sections : List Section) (base : UInt16) :
  (assign owner sections base).Within (sectionOrder sections)
  := by
  rw [assign]
  split
  · rintro p ⟨⟩
  · apply Traced.Within.bind
    · apply Traced.within_foldlM (P := fun p => sectionOrder p.sections = sectionOrder sections)
      · intro p s hp
        rw [← hp]
        apply Progress.within_step
      · intro p s p' hp hstep
        rw [Progress.sectionOrder_step hstep, hp]
      · rfl
    · intro p _
      apply Traced.within_pure

/-! ### Symbols that lines declare -/

/-- A line of the program declares the symbol. -/
def Program.Declares (program : Program) (i : SymbolId) : Prop :=
  ∃ l ∈ program, l.symbol? = some i

/-- A line of the program other than an `.EQUATE` declares the symbol. -/
def Program.Labels (program : Program) (i : SymbolId) : Prop :=
  ∃ l ∈ program, l.symbol? = some i ∧ ∀ argument, l.kind ≠ .equate argument

/-- A definition that an assembly enters is that of a symbol that a line declares, and it has a
section only if the symbol is a label. -/
theorem declares_of_mem_definitionsOf {program : Program} {symbols : SymbolTable}
    {options : Options} {d : Definition} (hd : d ∈ definitionsOf program symbols options) :
  program.Declares d.symbol ∧ (d.sectionIndex? ≠ none → program.Labels d.symbol)
  := by
  rw [definitionsOf] at hd
  split at hd
  · cases hd
  · next sections hsections =>
    obtain ⟨p, hp, hd⟩ := List.mem_filterMap.mp hd
    obtain ⟨pass, next, hplace⟩ := exists_place_of_mem_assign p hp
    have hsymbol : p.line.line.symbol? = some d.symbol := by
      rw [← Pass.symbol_of_place hplace, hd, Option.map_some]
    have hmem : p.line.line ∈ program := by
      rw [← Program.map_line_numbered program]
      apply List.mem_map_of_mem
      apply (Program.sectionOrder_perm hsections).subset
      apply within_assign _ _ _ p hp
    use ⟨p.line.line, hmem, hsymbol⟩
    intro hsection
    use p.line.line, hmem, hsymbol
    intro argument hkind
    obtain ⟨value, -, hd'⟩ := Pass.definition_of_equate hplace hkind hsymbol
    rw [hd', Option.some_inj] at hd
    apply hsection
    rw [← hd]

/-! ### Frames -/

namespace SymbolTable

/-- The section of the entry at a position, if it has one. -/
def section? (t : SymbolTable) (i : SymbolId) : Option Nat :=
  (t.get? i).bind (·.sectionIndex?)

/-- A table and what has become of it when values were written at some of its positions only, and
sections at some. -/
structure Frame (values sections : SymbolId → Prop) (t t' : SymbolTable) : Prop where
  id_eq : t'.id = t.id
  /-- There are the same entries in the same order, with their names, states and bindings. -/
  heads_eq : t'.entries.map SymbolEntry.head = t.entries.map SymbolEntry.head
  value_eq : ∀ i, ¬ values i → t'.value? i = t.value? i
  section_eq : ∀ i, ¬ sections i → t'.section? i = t.section? i

variable {t t' t'' : SymbolTable} {values values' sections sections' : SymbolId → Prop}

theorem Frame.refl (t : SymbolTable) :
  Frame values sections t t
  where
  id_eq := rfl
  heads_eq := rfl
  value_eq _ _ := rfl
  section_eq _ _ := rfl

theorem Frame.trans (h : Frame values sections t t') (h' : Frame values sections t' t'') :
  Frame values sections t t''
  where
  id_eq := h'.id_eq.trans h.id_eq
  heads_eq := h'.heads_eq.trans h.heads_eq
  value_eq i hi := (h'.value_eq i hi).trans (h.value_eq i hi)
  section_eq i hi := (h'.section_eq i hi).trans (h.section_eq i hi)

theorem Frame.mono (h : Frame values sections t t') (hvalues : ∀ i, values i → values' i)
    (hsections : ∀ i, sections i → sections' i) :
  Frame values' sections' t t'
  where
  id_eq := h.id_eq
  heads_eq := h.heads_eq
  value_eq i hi := h.value_eq i fun hi' => hi (hvalues i hi')
  section_eq i hi := h.section_eq i fun hi' => hi (hsections i hi')

theorem heads_eq_of_get?
    (h : ∀ i, (t'.get? i).map SymbolEntry.head = (t.get? i).map SymbolEntry.head) :
  t'.entries.map SymbolEntry.head = t.entries.map SymbolEntry.head
  := by
  ext i : 1
  rw [List.getElem?_map, List.getElem?_map]
  apply h i

/-- A definition writes the value of its symbol, and its section if it comes with one. -/
theorem frame_enter (t : SymbolTable) (d : Definition) :
  Frame (· = d.symbol) (fun i => i = d.symbol ∧ d.sectionIndex? ≠ none) t (t.enter d)
  := by
  constructor
  · apply id_foldl_enter [d]
  · apply heads_eq_of_get?
    intro i
    rw [get?_enter, Option.map_map]
    congr 1
    funext e
    by_cases h : d.symbol = i
    · simp [h, SymbolEntry.define, SymbolEntry.head]
    · simp [h]
  · intro i hi
    simp [value?, get?_enter, Ne.symm hi]
  · intro i hi
    rw [section?, section?, get?_enter]
    by_cases h : d.symbol = i
    · have hnone : d.sectionIndex? = none := by
        by_contra hsome
        apply hi ⟨h.symm, hsome⟩
      simp [h, SymbolEntry.define, hnone, Option.bind_map]
    · simp [h]

theorem frame_foldl_enter (t : SymbolTable) (ds : List Definition) :
  Frame (fun i => ∃ d ∈ ds, i = d.symbol) (fun i => ∃ d ∈ ds, i = d.symbol ∧ d.sectionIndex? ≠ none)
    t (ds.foldl enter t)
  := by
  induction ds generalizing t with
  | nil => apply Frame.refl
  | cons d ds ih =>
      apply ((frame_enter t d).mono _ _).trans ((ih (t.enter d)).mono _ _)
      · intro i hi
        exact ⟨d, List.mem_cons_self, hi⟩
      · intro i hi
        exact ⟨d, List.mem_cons_self, hi⟩
      · rintro i ⟨d', hd', hi⟩
        exact ⟨d', List.mem_cons_of_mem d hd', hi⟩
      · rintro i ⟨d', hd', hi⟩
        exact ⟨d', List.mem_cons_of_mem d hd', hi⟩

/-- An imported symbol without a value, whose name a linked table exports. -/
def Bindable (t : SymbolTable) (linked : List SymbolTable) (i : SymbolId) : Prop :=
  ∃ e, t.get? i = some e ∧ e.binding = .imported ∧ e.value = .empty
    ∧ ∃ other ∈ linked, (other.export? e.name).isSome

/-- Binding imports writes the values of those that a linked table exports. -/
theorem frame_bindImports (t : SymbolTable) (linked : List SymbolTable) :
  Frame (t.Bindable linked) (fun _ => False) t (t.bindImports linked)
  := by
  constructor
  · rfl
  · apply heads_eq_of_get?
    intro i
    rw [get?_bindImports, Option.map_map]
    congr 1
    funext e
    apply SymbolEntry.head_bindImport
  · intro i hi
    rw [value?, value?, get?_bindImports, Option.map_map]
    cases he : t.get? i with
    | none => rfl
    | some e =>
        rcases e.bindImport_cases linked with
          hbind | ⟨hbinding, hvalue, other, hother, target, hexport, -⟩
        · rw [Option.map_some, Option.map_some, Function.comp_apply, hbind]
        · have hsome : (other.export? e.name).isSome := by rw [hexport, Option.isSome_some]
          cases hi ⟨e, he, hbinding, hvalue, other, hother, hsome⟩
  · intro i _
    rw [section?, section?, get?_bindImports]
    cases t.get? i with
    | none => rfl
    | some e =>
        rcases e.bindImport_cases linked with hbind | ⟨-, -, other, -, target, -, hbind⟩
        · rw [Option.map_some, hbind]
        · rw [Option.map_some, hbind]
          rfl

end SymbolTable

/-- Whether an assembly succeeds or fails, and wherever it fails, it writes values of symbols that a
line declares or that can be bound, and sections of labels, and nothing else. -/
theorem frame_assemble (program : Program) (symbols : SymbolTable) (options : Options) :
  SymbolTable.Frame (fun i => program.Declares i ∨ symbols.Bindable options.linked i)
    program.Labels symbols (assemble program symbols options).symbols
  := by
  rw [symbols_assemble_eq_foldl]
  apply ((symbols.frame_bindImports options.linked).mono _ _).trans
    ((SymbolTable.frame_foldl_enter _ _).mono _ _)
  · intro i hi
    right
    exact hi
  · rintro i ⟨⟩
  · rintro i ⟨d, hd, rfl⟩
    left
    apply (declares_of_mem_definitionsOf hd).1
  · rintro i ⟨d, hd, rfl, hsection⟩
    apply (declares_of_mem_definitionsOf hd).2 hsection

end Pep10
