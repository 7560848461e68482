import Pep10.Proofs.Acceptance
import Pep10.Proofs.Layout.Erasure
import Pep10.Proofs.Patching

/-!
# Late definitions

A symbol that a program leaves open can be given a value by one more line at its end.  The program
is then laid out as it was, and its object code is the old one with the value filled in at the
relocations that wait for the symbol, be it by its own name or by that of an alias.  So a
relocation says all that has to be known to fill in a value later.
-/

namespace Pep10

/-! ### Pointers to a symbol -/

namespace SymbolTable

/-- Do at most `hops` pointers inside the table lead from one entry to another? -/
def leadsTo (t : SymbolTable) (target : SymbolId) : (hops : Nat) → SymbolId → Bool
  | 0, i => i = target
  | hops + 1, i => i = target ||
    match t.value? i with
    | some (.internal j) => t.leadsTo target hops j
    | _ => false

/-- Is a reference to an entry of the table, or to an alias of it? -/
def reaches (t : SymbolTable) (target : SymbolId) (r : SymbolRef) : Bool :=
  t.owns r && t.leadsTo target maxHops r.entry

/-- The table `t'` gives a value to an entry that has none in the table `t`, and is the same
otherwise. -/
structure Supplies (target : SymbolId) (v : UInt64) (t t' : SymbolTable) : Prop where
  id_eq : t'.id = t.id
  before : t.value? target = some .empty
  after : ∃ c, t'.value? target = some (.constant c) ∧ c.value = v
  others : ∀ i, i ≠ target → t'.value? i = t.value? i

namespace Supplies

variable {target i : SymbolId} {v : UInt64} {t t' : SymbolTable} {linked : List SymbolTable}
  {hops : Nat}

theorem resolveWithin_target (h : Supplies target v t t') (hops : Nat) :
  resolveWithin linked hops t target = none ∧ resolveWithin linked hops t' target = some v
  := by
  obtain ⟨c, hc, rfl⟩ := h.after
  rw [resolveWithin, resolveWithin, denotation, denotation, h.before, hc]
  use rfl

/-- An entry that leads to the target gets the value of the target. -/
theorem resolveWithin_of_leadsTo (h : Supplies target v t t') (hi : t.leadsTo target hops i) :
  resolveWithin linked hops t i = none ∧ resolveWithin linked hops t' i = some v
  := by
  induction hops generalizing i with
  | zero =>
      obtain rfl : i = target := by simpa [leadsTo] using hi
      apply h.resolveWithin_target
  | succ hops ih =>
      by_cases heq : i = target
      · rw [heq]
        apply h.resolveWithin_target
      · rw [leadsTo, decide_eq_false heq, Bool.false_or] at hi
        split at hi
        · next j hj =>
          have hj' := (h.others i heq).trans hj
          rw [resolveWithin, resolveWithin, denotation, denotation, hj, hj']
          apply ih hi
        · cases hi

/-- Any other entry stands for what it stood for. -/
theorem resolveWithin_of_not_leadsTo (h : Supplies target v t t')
    (hi : ¬ t.leadsTo target hops i) :
  resolveWithin linked hops t' i = resolveWithin linked hops t i
  := by
  induction hops generalizing i with
  | zero =>
      have hne : i ≠ target := by simpa [leadsTo] using hi
      rw [resolveWithin, resolveWithin, denotation, denotation, h.others i hne]
      cases t.value? i with
      | none => rfl
      | some value =>
          cases value with
          | external r =>
              cases linked.find? (·.id == r.table) with
              | none => rfl
              | some u => rfl
          | _ => rfl
  | succ hops ih =>
      rw [leadsTo, Bool.or_eq_true, not_or, decide_eq_true_eq] at hi
      rw [resolveWithin, resolveWithin, denotation, denotation, h.others i hi.1]
      cases hvalue : t.value? i with
      | none => rfl
      | some value =>
          cases value with
          | internal j =>
              rw [hvalue] at hi
              apply ih hi.2
          | external r =>
              cases linked.find? (·.id == r.table) with
              | none => rfl
              | some u => rfl
          | _ => rfl

/-- What the references stand for, with the value and without it. -/
theorem gains (h : Supplies target v t t') (linked : List SymbolTable) :
  Gains v (t.reaches target) (t.resolveRef · linked) (t'.resolveRef · linked)
  := by
  have howns : ∀ r, t'.owns r = t.owns r := by
    intro r
    rw [owns, owns, h.id_eq]
  constructor
  · intro r hr
    rw [reaches, Bool.and_eq_true] at hr
    rw [resolveRef, if_pos hr.1]
    apply (h.resolveWithin_of_leadsTo hr.2).1
  · intro r hr
    rw [reaches, Bool.and_eq_true] at hr
    rw [resolveRef, howns, if_pos hr.1]
    apply (h.resolveWithin_of_leadsTo hr.2).2
  · intro r hr
    rw [reaches, Bool.and_eq_true] at hr
    rw [resolveRef, resolveRef, howns]
    split
    · next hown => apply h.resolveWithin_of_not_leadsTo fun hleads => hr ⟨hown, hleads⟩
    · rfl

end Supplies

end SymbolTable

/-! ### The line that gives the value -/

/-- The line that gives a symbol a value. -/
def Line.supplying (s : SymbolId) (v : UInt16) (comment? : Option String) : Line where
  kind := .equate (.literal (.hexadecimal v))
  symbol? := some s
  comment?

section

variable {s : SymbolId} {v : UInt16} {comment? : Option String} {id : LineId}

theorem value_word (v : UInt16) :
  (MaskedBits.word v.toUInt64).value = v.toUInt64
  := by
  apply UInt64.toNat_inj.mp
  have hmask : (0xFFFF : UInt64).toNat = 2 ^ 16 - 1 := rfl
  rw [MaskedBits.word, MaskedBits.value, UInt64.toNat_and, hmask, Nat.and_two_pow_sub_one_eq_mod,
    UInt16.toNat_toUInt64]
  apply Nat.mod_eq_of_lt v.toNat_lt

theorem place_supplying (pass : Pass) (base : UInt16) :
  pass.place base ⟨id, .supplying s v comment?⟩
    = .ok (⟨⟨id, .supplying s v comment?⟩, base, base, 0,
      some ⟨s, .constant (.word v.toUInt64), none⟩⟩, base)
  := by
  have hvalue : (Literal.hexadecimal v).value 2 = .ok v.toUInt64 := by
    rw [Literal.value_hexadecimal (by decide) (by decide), if_neg]
    apply Nat.not_le_of_lt v.toNat_lt
  simp [Pass.place, Line.supplying, Pass.equate, equateValue, hvalue, bind, Except.bind, pure,
    Except.pure]

theorem weightless_supplying (id : LineId) (s : SymbolId) (v : UInt16) (comment? : Option String) :
  Weightless ⟨id, .supplying s v comment?⟩
  where
  place pass base := ⟨_, place_supplying pass base⟩
  origin?_eq_none _ := rfl

/-- The placement of the line comes with the definition of the symbol. -/
theorem definition_of_supplying {pass : Pass} {next : UInt16} {p : Placement}
    (h : pass.place p.base p.line = .ok (p, next)) (hp : p.line = ⟨id, .supplying s v comment?⟩) :
  p.definition? = some ⟨s, .constant (.word v.toUInt64), none⟩
  := by
  rw [hp, place_supplying] at h
  obtain ⟨hplaced, -⟩ := Prod.mk.inj (Except.ok.inj h)
  apply (congrArg Placement.definition? hplaced).symm

end

/-! ### One more line -/

section

variable {program : Program} {initial : Heading} {l : NumberedLine}

theorem Program.numbered_concat (program : Program) (line : Line) :
  Program.numbered (program ++ [line]) = program.numbered ++ [⟨program.length, line⟩]
  := by
  simp [Program.numbered, List.zipIdx_append]

/-- A line that opens no section goes to the end of the open one. -/
theorem exists_outline_concat (initial : Heading) (lines : List NumberedLine)
    (hl : l.heading? = none) :
  ∃ k, outline initial (lines ++ [l])
    = (outline initial lines).modify k fun s => (s.note l.line.kind).push l
  := by
  use (firstOfEachName (headings initial lines)).findIdx (·.name == openName initial.name lines)
  rw [outline, headings_concat, hl, named_concat, NumberedLine.nameAfter, hl, outline,
    modify_sectionsOf]
  simp

theorem exists_sections_concat {symbols symbols' : SymbolTable} {sections : List Section}
    (line : Line) (hsections : program.sections symbols initial = .ok sections)
    (hlabels : ∀ l ∈ program.numbered, Split.checkLabel symbols' l = .ok ())
    (hlabel : Split.checkLabel symbols' ⟨program.length, line⟩ = .ok ())
    (hline : NumberedLine.heading? ⟨program.length, line⟩ = none)
    (hnote : ∀ s : Section, s.note line.kind = s) :
  ∃ k, Program.sections (program ++ [line]) symbols' initial
    = .ok (sections.modify k (·.push ⟨program.length, line⟩))
  := by
  obtain ⟨-, hconsistent, rfl⟩ := Program.sections_eq_ok_iff.mp hsections
  obtain ⟨k, hk⟩ := exists_outline_concat initial program.numbered hline
  simp only [hnote] at hk
  use k
  rw [Program.sections_eq_ok_iff, Program.numbered_concat, headings_concat, hline]
  refine ⟨?_, ?_, hk.symm⟩
  · rw [List.forall_mem_append, List.forall_mem_singleton]
    use hlabels, hlabel
  · rwa [Option.toList_none, List.append_nil]

end

/-! ### The table with the definition -/

namespace SymbolTable

variable {t : SymbolTable} {name : String} {s i : SymbolId} {linked : List SymbolTable}

theorem bindImport_state (e : SymbolEntry) (state : DefinitionState) :
  SymbolEntry.bindImport linked { e with state } = { e.bindImport linked with state }
  := by
  simp only [SymbolEntry.bindImport]
  split
  · split
    · rfl
    · rfl
  · rfl

/-- Defining a symbol once more changes how often it is defined, and nothing else. -/
theorem get?_bindImports_define (h : t.find? name = some s) (linked : List SymbolTable)
    (i : SymbolId) :
  ((t.define name).2.bindImports linked).get? i
    = ((t.bindImports linked).get? i).map
      fun e => if s = i then { e with state := e.state.next } else e
  := by
  have hdefine : (t.define name).2 = t.modify s fun e => { e with state := e.state.next } := by
    rw [define, reference, h]
  rw [get?_bindImports, get?_bindImports, hdefine, get?_modify, Option.map_map, Option.map_map]
  congr 1
  funext e
  by_cases hi : s = i
  · simp only [hi, if_true, Function.comp_apply, bindImport_state, SymbolEntry.state_bindImport]
  · simp only [hi, if_false, Function.comp_apply]

/-- Labels that could be declared can still be declared, and the undefined symbol is none of
them. -/
theorem checkLabel_define (h : t.find? name = some s) {e : SymbolEntry} (he : t.get? s = some e)
    (hstate : e.state = .undefined) {l : NumberedLine}
    (hl : Split.checkLabel (t.bindImports linked) l = .ok ()) :
  l.line.symbol? ≠ some s ∧ Split.checkLabel ((t.define name).2.bindImports linked) l = .ok ()
  := by
  rw [checkLabel_eq_ok_iff] at hl
  have hne : l.line.symbol? ≠ some s := by
    intro hsymbol
    obtain ⟨f, hf, hsingle⟩ := hl s hsymbol
    rw [get?_bindImports, he] at hf
    cases hf
    simp [SymbolEntry.isSingle, SymbolEntry.state_bindImport, hstate] at hsingle
  use hne
  rw [checkLabel_eq_ok_iff]
  intro i hi
  obtain ⟨f, hf, hsingle⟩ := hl i hi
  have hsi : s ≠ i := by
    rintro rfl
    apply hne hi
  use f
  rw [get?_bindImports_define h, hf, Option.map_some, if_neg hsi]
  use rfl

/-- The undefined symbol can be declared once it is defined. -/
theorem checkLabel_define_self (h : t.find? name = some s) {e : SymbolEntry}
    (he : t.get? s = some e) (hstate : e.state = .undefined) {l : NumberedLine}
    (hl : l.line.symbol? = some s) :
  Split.checkLabel ((t.define name).2.bindImports linked) l = .ok ()
  := by
  rw [checkLabel_eq_ok_iff, hl]
  rintro _ ⟨⟩
  rw [get?_bindImports_define h, get?_bindImports, he]
  use { e.bindImport linked with state := .single }
  rw [Option.map_some, Option.map_some, if_pos rfl, SymbolEntry.state_bindImport, hstate]
  exact ⟨rfl, rfl⟩

end SymbolTable

section

variable {x : NumberedLine} {d : Definition} {i : SymbolId}

/-- Only the symbol of a definition notices that its line is gone. -/
theorem filter_definitions {ps : List Placement}
    (hx : ∀ p ∈ ps, p.line = x → p.definition? = some d) (hi : d.symbol ≠ i) :
  ((ps.filter (·.line ≠ x)).filterMap (·.definition?)).filter (·.symbol = i)
    = (ps.filterMap (·.definition?)).filter (·.symbol = i)
  := by
  rw [List.filterMap_filter, List.filter_filterMap, List.filter_filterMap]
  apply List.filterMap_congr
  intro p hp
  by_cases hline : p.line = x
  · simp [hline, hx p hp hline, Option.filter_some, hi]
  · simp [hline]

/-- A table with one more definition, of a symbol that no other line defines. -/
theorem supplies_of_definition {bound bound' : SymbolTable} {ps : List Placement} {c : MaskedBits}
    (hid : bound'.id = bound.id) (hothers : ∀ i, i ≠ d.symbol → bound'.get? i = bound.get? i)
    (hself : (bound'.get? d.symbol).isSome) (hvalue : d.value = .constant c)
    (hx : ∀ p ∈ ps, p.line = x → p.definition? = some d)
    (honly : ∀ p ∈ ps, ∀ d' ∈ p.definition?, d'.symbol = d.symbol → p.line = x)
    (hmem : ∃ p ∈ ps, p.line = x)
    (hempty : (((ps.filter (·.line ≠ x)).filterMap (·.definition?)).foldl SymbolTable.enter
      bound).value? d.symbol = some .empty) :
  SymbolTable.Supplies d.symbol c.value
    (((ps.filter (·.line ≠ x)).filterMap (·.definition?)).foldl SymbolTable.enter bound)
    ((ps.filterMap (·.definition?)).foldl SymbolTable.enter bound')
  := by
  constructor
  · rw [SymbolTable.id_foldl_enter, SymbolTable.id_foldl_enter, hid]
  · apply hempty
  · obtain ⟨p, hp, hline⟩ := hmem
    obtain ⟨e, he⟩ := Option.isSome_iff_exists.mp hself
    use c
    rw [SymbolTable.value?, SymbolTable.get?_foldl_enter_of_mem
      (List.mem_filterMap.mpr ⟨p, hp, hx p hp hline⟩), he, ← hvalue]
    · use rfl
    · intro d' hd' hsymbol
      obtain ⟨q, hq, hq'⟩ := List.mem_filterMap.mp hd'
      have hd := hx q hq (honly q hq d' hq' hsymbol)
      apply Option.some_inj.mp (hq'.symm.trans hd)
  · intro i hi
    rw [SymbolTable.value?, SymbolTable.value?, SymbolTable.get?_foldl_enter,
      SymbolTable.get?_foldl_enter, filter_definitions hx (Ne.symm hi), hothers i hi]

end

/-! ### Code without the line -/

section

variable {addresses : LineTable Address} {resolve : SymbolRef → Option UInt64}
  {index start : Nat} {x : NumberedLine} {code : SectionCode}

theorem Emitted.of_filter (hx : addresses.get? x.id = none) {lines : List NumberedLine}
    (h : Emitted addresses resolve index start (lines.filter (· ≠ x)) code) :
  Emitted addresses resolve index start lines code
  := by
  induction lines generalizing start code with
  | nil => apply h
  | cons l lines ih =>
      by_cases hl : l = x
      · rw [List.filter_cons_of_neg (by simpa using hl)] at h
        apply Emitted.skip _ (ih h)
        rw [hl, hx]
      · rw [List.filter_cons_of_pos (by simpa using hl)] at h
        cases h with
        | skip hnone hrest => apply Emitted.skip hnone (ih hrest)
        | line hsome hcode hrest => apply Emitted.line hsome hcode (ih hrest)

/-- A line without an address leaves nothing in the code of its section. -/
theorem Section.Emits.of_erase (hx : addresses.get? x.id = none) {t : Section}
    (h : (t.erase x).Emits addresses resolve index code) :
  t.Emits addresses resolve index code
  := by
  have hplaced : (t.lines.filter (· ≠ x)).filter (addresses.contains ·.id)
      = t.lines.filter (addresses.contains ·.id) := by
    rw [List.filter_filter]
    apply List.filter_congr
    intro l _
    by_cases hl : l = x
    · simp [hl, LineTable.contains, hx]
    · simp [hl]
  have hzeroed : (t.erase x).isZeroed = t.isZeroed := rfl
  rw [Section.Emits, hzeroed] at h
  rw [Section.Emits]
  split
  · next ht =>
    rw [if_pos ht, Section.erase, hplaced] at h
    apply h
  · next ht =>
    rw [if_neg ht] at h
    apply Emitted.of_filter hx h

theorem EmitsAll.of_erase (hx : addresses.get? x.id = none) {sections : List Section} {n : Nat}
    {codes : List SectionCode}
    (h : EmitsAll addresses resolve ((sections.map (·.erase x)).zipIdx n) codes) :
  EmitsAll addresses resolve (sections.zipIdx n) codes
  := by
  rw [EmitsAll, List.zipIdx_map, List.forall₂_map_left_iff] at h
  apply h.imp
  intro y code hcode
  apply Section.Emits.of_erase hx hcode

end

/-! ### Layouts with the line -/

section

variable {program : Program} {bound bound' : SymbolTable} {initial : Heading}
  {sections sections' laid laid' : List Section} {base : UInt16} {k : Nat} {s : SymbolId}
  {v : UInt16} {comment? : Option String}

/-- A line that comes after the program has no address in its layout. -/
theorem get?_addresses_length (hsections : program.sections bound initial = .ok sections)
    (hassign : (assign bound.id sections base).outcome = .ok laid) :
  (assign bound.id sections base).addresses.get? program.length = none
  := by
  rw [Option.eq_none_iff_forall_ne_some]
  intro e he
  obtain ⟨l, hl, hid⟩ := exists_line_of_get?_addresses hsections hassign he
  rw [(Program.sectionOrder_perm hsections).mem_iff] at hl
  apply Nat.ne_of_lt (Program.id_lt_of_mem_numbered hl) hid

/-- With a line at its end that gives a symbol a value, a program is laid out as it was. -/
theorem exists_assign_supplying (hsections : program.sections bound initial = .ok sections)
    (hid : bound'.id = bound.id) (hassign : (assign bound.id sections base).outcome = .ok laid) :
  ∃ laid',
    (assign bound'.id (sections.modify k (·.push ⟨program.length, .supplying s v comment?⟩))
      base).outcome = .ok laid'
    ∧ laid'.map (·.erase ⟨program.length, .supplying s v comment?⟩) = laid
    ∧ (assign bound.id sections base).placements
      = (assign bound'.id (sections.modify k (·.push ⟨program.length, .supplying s v comment?⟩))
        base).placements.filter (·.line ≠ ⟨program.length, .supplying s v comment?⟩)
    ∧ (assign bound'.id (sections.modify k (·.push ⟨program.length, .supplying s v comment?⟩))
      base).addresses = (assign bound.id sections base).addresses
  := by
  have hx := weightless_supplying program.length s v comment?
  have hfresh : ⟨program.length, .supplying s v comment?⟩ ∉ sectionOrder sections := by
    intro hmem
    rw [(Program.sectionOrder_perm hsections).mem_iff] at hmem
    apply Nat.lt_irrefl _ (Program.id_lt_of_mem_numbered hmem)
  have herase := erase_assign_modify_push (k := k) hx hfresh (Program.sections_ne_nil hsections)
    hassign
  rw [← hid] at herase hassign ⊢
  have houtcome := congrArg Traced.outcome herase
  rw [hassign] at houtcome
  obtain ⟨laid', hassign', hlaid'⟩ := Except.map_eq_ok_iff.mp houtcome
  use laid', hassign', hlaid'
  have hplacements := congrArg Traced.placements herase
  use hplacements.symm
  rw [Traced.addresses, Traced.addresses, ← hplacements]
  symm
  congr 1
  apply entries_filter
  intro p hp
  obtain ⟨pass, next, hplace⟩ := exists_place_of_mem_assign p hp
  apply hx.size_eq_zero hplace

/-- The table after the program with the line, and the table after the program without it. -/
theorem supplies_supplying
    (hsections : Program.sections (program ++ [.supplying s v comment?]) bound' initial
      = .ok sections')
    (hassign : (assign bound'.id sections' base).outcome = .ok laid') (hid : bound'.id = bound.id)
    (hothers : ∀ i, i ≠ s → bound'.get? i = bound.get? i) (hself : (bound'.get? s).isSome)
    (hundeclared : ∀ l ∈ program.numbered, l.line.symbol? ≠ some s)
    {ps : List Placement} (hps : ps = (assign bound'.id sections' base).placements.filter
      (·.line ≠ ⟨program.length, .supplying s v comment?⟩))
    (hempty : ((ps.filterMap (·.definition?)).foldl SymbolTable.enter bound).value? s
      = some .empty) :
  SymbolTable.Supplies s v.toUInt64 ((ps.filterMap (·.definition?)).foldl SymbolTable.enter bound)
    ((assign bound'.id sections' base).enterInto bound')
  := by
  have hlines : ∀ {l}, l ∈ (assign bound'.id sections' base).placements.map (·.line)
      ↔ l ∈ program.numbered ∨ l = ⟨program.length, .supplying s v comment?⟩ := by
    intro l
    rw [(assign_lines_perm hsections hassign).mem_iff,
      (Program.sectionOrder_perm hsections).mem_iff, Program.numbered_concat, List.mem_append,
      List.mem_singleton]
  subst hps
  rw [← value_word v]
  apply supplies_of_definition (d := ⟨s, .constant (.word v.toUInt64), none⟩) hid hothers hself rfl
  · intro p hp hline
    obtain ⟨pass, next, hplace⟩ := exists_place_of_mem_assign p hp
    apply definition_of_supplying hplace hline
  · intro p hp d hd hsymbol
    obtain ⟨pass, next, hplace⟩ := exists_place_of_mem_assign p hp
    have hdeclares := Pass.symbol_of_place hplace
    rw [hd, Option.map_some, hsymbol] at hdeclares
    apply (hlines.mp (List.mem_map_of_mem hp)).resolve_left
    intro hmem
    apply hundeclared p.line hmem hdeclares.symm
  · apply List.mem_map.mp (hlines.mpr (.inr rfl))
  · apply hempty

end

/-! ### Filling in a value -/

/-- Does the operand that a relocation waits for stand for a symbol or an alias of it? -/
def Relocation.reaches (program : Program) (t : SymbolTable) (s : SymbolId) (r : Relocation) :
    Bool :=
  (program[r.line]?.bind (·.reference?)).any (t.reaches s)

/-- An assembly, and the one in which some relocations have been filled in with a value. -/
structure FilledIn (v : UInt64) (dropped : Relocation → Bool) (a a' : Assembly) : Prop where
  addresses_eq : a'.addresses = a.addresses
  descriptors_eq : a'.sections.map (·.toDescriptor) = a.sections.map (·.toDescriptor)
  spans_eq : a'.object.spans = a.object.spans
  /-- The other relocations are left, in their order. -/
  relocations_eq : a'.object.relocations = a.object.relocations.filter (¬ dropped ·)
  buffers : Patched v (a.object.relocations.filter (dropped ·)) a.object.buffers a'.object.buffers

/-- Sections with the line are emitted as those without it, with the value filled in. -/
theorem exists_emit_supplying {program : Program} {bound bound' t : SymbolTable}
    {initial : Heading} {sections sections' laid laid' : List Section} {base : UInt16}
    {line : Line} {s : SymbolId} {v : UInt64} {resolve resolve' : SymbolRef → Option UInt64}
    {object : ObjectCode} (hsections : program.sections bound initial = .ok sections)
    (hassign : (assign bound.id sections base).outcome = .ok laid)
    (hsections' : Program.sections (program ++ [line]) bound' initial = .ok sections')
    (hassign' : (assign bound'.id sections' base).outcome = .ok laid')
    (hlaid' : laid'.map (·.erase ⟨program.length, line⟩) = laid)
    (haddresses : (assign bound'.id sections' base).addresses
      = (assign bound.id sections base).addresses)
    (hgains : Gains v (t.reaches s) resolve resolve')
    (hfits : ∀ r ∈ object.relocations, r.reaches program t s → v.toNat < 256 ^ r.width.toNat)
    (hemit : emit laid (assign bound.id sections base).addresses resolve = .ok object) :
  ∃ object', emit laid' (assign bound'.id sections' base).addresses resolve' = .ok object'
    ∧ object'.spans = object.spans
    ∧ object'.relocations = object.relocations.filter (¬ ·.reaches program t s)
    ∧ Patched v (object.relocations.filter (·.reaches program t s)) object.buffers object'.buffers
  := by
  obtain ⟨hunplaced, hlaid⟩ := assign_laid hsections hassign
  obtain ⟨codes, hcodes, rfl⟩ := (emit_eq_ok_iff hlaid).mp hemit
  have hdropped : ∀ l ∈ sectionOrder laid, ∀ r : Relocation, r.line = l.id →
      r.reaches program t s = l.line.reference?.any (t.reaches s) := by
    intro l hl r hr
    rw [sectionOrder_eq_of_unplaced hunplaced,
      (Program.sectionOrder_perm hsections).mem_iff] at hl
    rw [Relocation.reaches, hr, Program.getElem?_of_mem_numbered hl]
    rfl
  simp only [← capacity_eq] at hfits
  obtain ⟨codes', hcodes', hpatched⟩ :=
    hcodes.exists_patched (fun s hs => (hlaid s hs).1) hgains hdropped hfits
  -- the line has no bytes, so the sections with it have the same code
  have hnone := get?_addresses_length hsections hassign
  rw [← haddresses] at hnone hcodes'
  rw [← hlaid'] at hcodes'
  have hemit' := (emit_eq_ok_iff (assign_laid hsections' hassign').2).mpr
    ⟨codes', hcodes'.of_erase hnone, rfl⟩
  refine ⟨_, hemit', ?_, hpatched.relocations_eq, hpatched.patched⟩
  apply congrArg LineTable.ofInserts hpatched.spans_eq

section

variable {program : Program} {symbols : SymbolTable} {options : Options} {name : String}
  {s : SymbolId} {e : SymbolEntry}

/-- With its definition at the end, the program is laid out as it was, and the table after it
supplies the value. -/
theorem exists_layout_supplying (hname : symbols.find? name = some s)
    (he : symbols.get? s = some e) (hstate : e.state = .undefined) {sections laid : List Section}
    (hsections : program.sections (symbols.bindImports options.linked) options.initial
      = .ok sections)
    (hassign : (assign symbols.id sections options.base).outcome = .ok laid)
    (hempty : (assemble program symbols options).symbols.value? s = some .empty) (v : UInt16)
    (comment? : Option String) :
  ∃ sections' laid',
    Program.sections (program ++ [.supplying s v comment?])
      ((symbols.define name).2.bindImports options.linked) options.initial = .ok sections'
    ∧ (assign (symbols.define name).2.id sections' options.base).outcome = .ok laid'
    ∧ laid'.map (·.erase ⟨program.length, .supplying s v comment?⟩) = laid
    ∧ (assign (symbols.define name).2.id sections' options.base).addresses
      = (assign symbols.id sections options.base).addresses
    ∧ SymbolTable.Supplies s v.toUInt64 (assemble program symbols options).symbols
      (assemble (program ++ [.supplying s v comment?]) (symbols.define name).2 options).symbols
  := by
  have hid : ((symbols.define name).2.bindImports options.linked).id
      = (symbols.bindImports options.linked).id := by
    rw [SymbolTable.define, SymbolTable.reference, hname]
    rfl
  have hget := SymbolTable.get?_bindImports_define hname options.linked
  obtain ⟨hlabels, -⟩ := Program.sections_eq_ok_iff.mp hsections
  have hlabels' := fun l hl => SymbolTable.checkLabel_define hname he hstate (hlabels l hl)
  obtain ⟨k, hsections'⟩ := exists_sections_concat (.supplying s v comment?) hsections
    (fun l hl => (hlabels' l hl).2)
    (SymbolTable.checkLabel_define_self hname he hstate rfl) rfl (fun _ => rfl)
  obtain ⟨laid', hassign', hlaid', hplacements, haddresses⟩ :=
    exists_assign_supplying hsections hid hassign
  refine ⟨_, laid', hsections', hassign', hlaid', haddresses, ?_⟩
  rw [symbols_assemble hsections] at hempty ⊢
  rw [symbols_assemble hsections']
  apply supplies_supplying hsections' hassign' hid _ _ (fun l hl => (hlabels' l hl).1)
    hplacements hempty
  · intro i hi
    simp only [hget, if_neg (Ne.symm hi), Option.map_id']
  · rw [hget, SymbolTable.get?_bindImports, he]
    rfl

/-- A symbol that a program leaves open can be defined at its end.  The program is assembled as it
was, but for the relocations that wait for the symbol: they are filled in with its value. -/
theorem assemble_supplying (hname : symbols.find? name = some s) (he : symbols.get? s = some e)
    (hstate : e.state = .undefined) {a : Assembly}
    (h : (assemble program symbols options).outcome = .ok a)
    (hempty : (assemble program symbols options).symbols.value? s = some .empty) {v : UInt16}
    (hfits : ∀ r ∈ a.object.relocations,
      r.reaches program (assemble program symbols options).symbols s →
      v.toNat < 256 ^ r.width.toNat)
    (comment? : Option String) :
  ∃ a', (assemble (program ++ [.supplying s v comment?]) (symbols.define name).2 options).outcome
      = .ok a'
    ∧ FilledIn v.toUInt64
      (fun r => r.reaches program (assemble program symbols options).symbols s) a a'
  := by
  obtain ⟨sections, laid, object, hsections, hassign, hemit, rfl⟩ := assemble_eq_ok_iff.mp h
  obtain ⟨sections', laid', hsections', hassign', hlaid', haddresses, hsupplies⟩ :=
    exists_layout_supplying hname he hstate hsections hassign hempty v comment?
  obtain ⟨object', hemit', hspans, hrelocations, hbuffers⟩ :=
    exists_emit_supplying hsections hassign hsections' hassign' hlaid' haddresses
      (hsupplies.gains options.linked) (by simpa using hfits) hemit
  refine ⟨_, assemble_eq_ok_iff.mpr ⟨_, laid', _, hsections', hassign', hemit', rfl⟩, haddresses,
    ?_, hspans, hrelocations, hbuffers⟩
  rw [← hlaid', List.map_map]
  rfl

end

/-- A program that leaves two symbols open, and uses one of them under an alias as well. -/
def Program.unfinished : Program :=
  [{ kind := .dyadic .ldwa (some .immediate) (.symbolic "count" ⟨0, 0⟩) },
    { kind := .equate (.symbolic "count" ⟨0, 0⟩), symbol? := some 1 },
    { kind := .data .byte (.symbolic "alias" ⟨0, 1⟩) },
    { kind := .data .word (.symbolic "other" ⟨0, 2⟩) }]

/-- The symbols of the program `unfinished`. -/
def SymbolTable.unfinished : SymbolTable where
  id := 0
  entries := [{ name := "count" }, { name := "alias", state := .single }, { name := "other" }]

theorem relocations_assemble_unfinished :
  (assemble .unfinished .unfinished {}).outcome.map (·.object.relocations)
    = .ok [⟨0, 1, 2, "count", 0⟩, ⟨0, 3, 1, "alias", 2⟩, ⟨0, 4, 2, "other", 3⟩]
  := by
  cbv

theorem assemble_supplying_unfinished :
  ∃ a a', (assemble .unfinished .unfinished {}).outcome = .ok a
    ∧ a.object.relocations
      = [⟨0, 1, 2, "count", 0⟩, ⟨0, 3, 1, "alias", 2⟩, ⟨0, 4, 2, "other", 3⟩]
    ∧ (assemble (Program.unfinished ++ [.supplying 0 0x2A none])
      (SymbolTable.unfinished.define "count").2 {}).outcome = .ok a'
    ∧ FilledIn 0x2A
      (·.reaches .unfinished (assemble .unfinished .unfinished {}).symbols 0) a a'
    ∧ a'.object.relocations = [⟨0, 4, 2, "other", 3⟩]
  := by
  obtain ⟨a, ha, hrelocations⟩ := Except.map_eq_ok_iff.mp relocations_assemble_unfinished
  have hname : SymbolTable.unfinished.find? "count" = some 0 := by decide
  have hempty : (assemble .unfinished .unfinished {}).symbols.value? 0 = some .empty := by cbv
  have hfits : ∀ r ∈ a.object.relocations,
      r.reaches .unfinished (assemble .unfinished .unfinished {}).symbols 0 →
      (0x2A : UInt16).toNat < 256 ^ r.width.toNat := by
    rw [hrelocations]
    decide
  obtain ⟨a', ha', hfilled⟩ := assemble_supplying hname rfl rfl ha hempty hfits none
  refine ⟨a, a', ha, hrelocations, ha', hfilled, ?_⟩
  rw [hfilled.relocations_eq, hrelocations]
  cbv

end Pep10
