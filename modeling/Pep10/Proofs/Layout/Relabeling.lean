import Pep10.Proofs.Layout.Run

/-!
# Relabelled lines

A layout looks at the kinds of lines and at the symbols they declare.  The number of a line serves
to say which line it is, its comment serves nothing, and the operand of an instruction or of data
is only looked at when the line is emitted.  So lines with other numbers, comments and operands are
placed where they were placed before: relabelling them commutes with every step of a layout that
succeeds, and so with the whole of it.
-/

namespace Pep10

/-! ### What a layout sees of a line -/

namespace LineKind

/-- Another operand for an instruction or for data.  Lines of other kinds stay as they are. -/
def setOperand (a : Argument) : LineKind → LineKind
  | .dyadic m mode _ => .dyadic m mode a
  | .data .byte _ => .data .byte a
  | .data .word _ => .data .word a
  | kind => kind

theorem exists_setOperand_self (kind : LineKind) :
  ∃ a, kind = kind.setOperand a
  := by
  cases kind with
  | dyadic m mode a => exact ⟨a, rfl⟩
  | data kind a =>
      cases kind with
      | byte => exact ⟨a, rfl⟩
      | word => exact ⟨a, rfl⟩
      | ascii => exact ⟨a, rfl⟩
  | _ => exact ⟨.literal (.decimal 0), rfl⟩

theorem setOperand_eq_origin_iff {kind : LineKind} {a b : Argument} {o : OriginKind} :
  kind.setOperand a = .origin o b ↔ kind = .origin o b
  := by
  fun_cases setOperand a kind with
  | case1 => simp
  | case2 => simp
  | case3 => simp
  | case4 => rfl

theorem setOperand_eq_equate_iff {kind : LineKind} {a b : Argument} :
  kind.setOperand a = .equate b ↔ kind = .equate b
  := by
  fun_cases setOperand a kind with
  | case1 => simp
  | case2 => simp
  | case3 => simp
  | case4 => rfl

end LineKind

/-- A change of lines that a layout does not notice: new numbers, comments and operands. -/
structure Relabeling where
  line : NumberedLine → NumberedLine
  id : LineId → LineId
  id_line : ∀ l, (line l).id = id l.id
  symbol?_line : ∀ l, (line l).line.symbol? = l.line.symbol?
  kind_line : ∀ l, ∃ a, (line l).line.kind = l.line.kind.setOperand a

/-! ### What a relabelling acts on -/

namespace NumberedLine

/-- A relabelled line. -/
def relabel (r : Relabeling) (l : NumberedLine) : NumberedLine :=
  r.line l

variable (r : Relabeling) (l : NumberedLine)

@[simp]
theorem id_relabel :
  (l.relabel r).id = r.id l.id
  := r.id_line l

@[simp]
theorem symbol?_relabel :
  (l.relabel r).line.symbol? = l.line.symbol?
  := r.symbol?_line l

theorem exists_kind_relabel :
  ∃ a, (l.relabel r).line.kind = l.line.kind.setOperand a
  := r.kind_line l

theorem kind_relabel_eq_origin_iff {o : OriginKind} {b : Argument} :
  (l.relabel r).line.kind = .origin o b ↔ l.line.kind = .origin o b
  := by
  obtain ⟨a, ha⟩ := l.exists_kind_relabel r
  rw [ha, LineKind.setOperand_eq_origin_iff]

theorem kind_relabel_eq_equate_iff {b : Argument} :
  (l.relabel r).line.kind = .equate b ↔ l.line.kind = .equate b
  := by
  obtain ⟨a, ha⟩ := l.exists_kind_relabel r
  rw [ha, LineKind.setOperand_eq_equate_iff]

@[simp]
theorem origin?_relabel (kind : OriginKind) :
  (l.relabel r).origin? kind = l.origin? kind
  := by
  apply Option.ext
  intro a
  rw [origin?_eq_some_iff, origin?_eq_some_iff, kind_relabel_eq_origin_iff]

@[simp]
theorem size_relabel (base : UInt16) :
  (l.relabel r).line.size base = l.line.size base
  := by
  obtain ⟨a, ha⟩ := l.exists_kind_relabel r
  rw [Line.size, Line.size?, ha, Line.size, Line.size?]
  fun_cases LineKind.setOperand a l.line.kind with
  | case1 => rfl
  | case2 => rfl
  | case3 => rfl
  | case4 => rfl

@[simp]
theorem isInstruction_relabel :
  (l.relabel r).line.isInstruction = l.line.isInstruction
  := by
  obtain ⟨a, ha⟩ := l.exists_kind_relabel r
  rw [Line.isInstruction, ha, Line.isInstruction]
  fun_cases LineKind.setOperand a l.line.kind with
  | case1 => rfl
  | case2 => rfl
  | case3 => rfl
  | case4 => rfl

end NumberedLine

/-- The placement of a relabelled line. -/
def Placement.relabel (r : Relabeling) (p : Placement) : Placement :=
  { p with line := p.line.relabel r }

/-- A section with relabelled lines. -/
def Section.relabel (r : Relabeling) (s : Section) : Section :=
  { s with lines := s.lines.map (·.relabel r) }

namespace Progress

/-- What has been laid out, with relabelled lines. -/
def relabel (r : Relabeling) (p : Progress) : Progress :=
  { p with sections := p.sections.map (·.relabel r) }

theorem lines_relabel (r : Relabeling) (p : Progress) (index : Nat) :
  (p.relabel r).lines index = (p.lines index).map (·.relabel r)
  := lines_map (fun _ => rfl) rfl p index

theorem relabel_setBounds (r : Relabeling) (p : Progress) (index : Nat) (bounds : Bounds) :
  (p.setBounds index bounds).relabel r = (p.relabel r).setBounds index bounds
  := by
  rw [relabel, map_setBounds fun _ => rfl]
  rfl

end Progress

theorem sectionOrder_relabel (r : Relabeling) (sections : List Section) :
  sectionOrder (sections.map (·.relabel r)) = (sectionOrder sections).map (·.relabel r)
  := by
  rw [sectionOrder, sectionOrder, List.flatMap_map, List.map_flatMap]
  rfl

/-! ### Tracking -/

namespace Traced

variable {α β γ δ ι : Type} {r : Relabeling}

/-- If the one succeeds, then so does the other, with the placements relabelled and with what `f`
makes of the result. -/
def Tracks (r : Relabeling) (f : α → β) (t : Traced α) (t' : Traced β) : Prop :=
  ∀ a, t.outcome = .ok a → t' = ⟨t.placements.map (·.relabel r), .ok (f a)⟩

theorem tracks_pure (f : α → β) (a : α) :
  Tracks r f (pure a) (pure (f a))
  := by
  rintro _ ⟨⟩
  rfl

theorem Tracks.bind {t : Traced α} {t' : Traced β} {f : α → β} {g : α → Traced γ}
    {g' : β → Traced δ} {k : γ → δ} (ht : Tracks r f t t')
    (hg : ∀ a, Tracks r k (g a) (g' (f a))) :
  Tracks r k (t >>= g) (t' >>= g')
  := by
  intro c hc
  obtain ⟨a, ha, hc⟩ := outcome_bind_eq_ok_iff.mp hc
  rw [ht a ha, placements_bind ha, List.map_append]
  simp only [Bind.bind, hg a c hc]

theorem tracks_foldlM {f : α → β} {g : α → ι → Traced α} {g' : β → ι → Traced β}
    (hg : ∀ a i, Tracks r f (g a i) (g' (f a) i)) (is : List ι) (a : α) :
  Tracks r f (is.foldlM g a) (is.foldlM g' (f a))
  := by
  induction is generalizing a with
  | nil => apply tracks_pure
  | cons i is ih =>
      rw [List.foldlM_cons, List.foldlM_cons]
      apply (hg a i).bind ih

end Traced

/-! ### Walks -/

theorem originValue_eq_ok {line line' : LineId} {a : Argument} {v : UInt16}
    (h : originValue line a = .ok v) :
  originValue line' a = .ok v
  := by
  cases a with
  | symbolic name r => cases h
  | literal literal =>
      rw [originValue] at h ⊢
      cases hvalue : literal.value 2 with
      | ok value =>
          rw [hvalue] at h
          apply h
      | error e =>
          rw [hvalue] at h
          cases h

theorem equateValue_eq_ok {owner : TableId} {line line' : LineId} {a : Argument} {v : SymbolValue}
    (h : equateValue owner line a = .ok v) :
  equateValue owner line' a = .ok v
  := by
  cases a with
  | symbolic name r => apply h
  | literal literal =>
      rw [equateValue] at h ⊢
      cases hvalue : literal.value 2 with
      | ok value =>
          rw [hvalue] at h
          apply h
      | error e =>
          rw [hvalue] at h
          cases h

namespace Pass

variable {pass : Pass} {base : UInt16}

theorem equate_relabel (r : Relabeling) {l : NumberedLine} {a : Argument} {d? : Option Definition}
    (h : pass.equate l a = .ok d?) :
  pass.equate (l.relabel r) a = .ok d?
  := by
  rw [equate] at h ⊢
  rw [NumberedLine.symbol?_relabel]
  cases hl : l.line.symbol? with
  | none =>
      rw [hl] at h
      apply h
  | some symbol =>
      rw [hl] at h
      obtain ⟨v, hv, h⟩ := Except.bind_eq_ok_iff.mp h
      apply Except.bind_eq_ok_iff.mpr ⟨v, equateValue_eq_ok hv, h⟩

theorem label_relabel (r : Relabeling) (l : NumberedLine) (address size : UInt16) :
  pass.label (l.relabel r) address size = pass.label l address size
  := by
  simp [label]

theorem place_relabel (r : Relabeling) {l : NumberedLine} {p : Placement} {next : UInt16}
    (h : pass.place base l = .ok (p, next)) :
  pass.place base (l.relabel r) = .ok (p.relabel r, next)
  := by
  rw [place] at h
  split at h
  · next a hkind =>
    obtain ⟨origin, horigin, h⟩ := Except.bind_eq_ok_iff.mp h
    cases h
    have hkind' := (l.kind_relabel_eq_origin_iff r).mpr hkind
    simp only [place, hkind', label_relabel]
    exact Except.bind_eq_ok_iff.mpr ⟨_, originValue_eq_ok horigin, rfl⟩
  · next a hkind =>
    obtain ⟨d?, hd, h⟩ := Except.bind_eq_ok_iff.mp h
    cases h
    have hkind' := (l.kind_relabel_eq_equate_iff r).mpr hkind
    simp only [place, hkind']
    exact Except.bind_eq_ok_iff.mpr ⟨_, equate_relabel r hd, rfl⟩
  · next horg hequate =>
    rw [place]
    split
    · next a hkind => cases horg a ((l.kind_relabel_eq_origin_iff r).mp hkind)
    · next a hkind => cases hequate a ((l.kind_relabel_eq_equate_iff r).mp hkind)
    · simp only [NumberedLine.size_relabel, label_relabel]
      cases hdir : pass.direction with
      | forward =>
          simp only [hdir] at h
          cases h
          rfl
      | backward =>
          simp only [hdir] at h
          cases h
          rfl

theorem tracks_visit (r : Relabeling) (pass : Pass) (base : UInt16) (ls : List NumberedLine) :
  Traced.Tracks r id (pass.visit base ls) (pass.visit base (ls.map (·.relabel r)))
  := by
  induction ls generalizing base with
  | nil => apply Traced.tracks_pure
  | cons l ls ih =>
      intro exit hexit
      rw [visit] at hexit ⊢
      cases hplace : pass.place base l with
      | error e =>
          rw [hplace] at hexit
          cases hexit
      | ok placed =>
          obtain ⟨p, next⟩ := placed
          rw [hplace] at hexit
          rw [List.map_cons, visit, place_relabel r hplace]
          simp only [ih next exit hexit, List.map_cons]

theorem tracks_walk (r : Relabeling) (pass : Pass) (base : UInt16) (ls : List NumberedLine) :
  Traced.Tracks r id (pass.walk base ls) (pass.walk base (ls.map (·.relabel r)))
  := by
  intro w hw
  obtain ⟨exit, hvisit, rfl⟩ := walk_eq_ok_iff.mp hw
  have htracks := tracks_visit r pass base (pass.direction.order ls) exit hvisit
  have hfirst : (((pass.walk base ls).placements.map (·.relabel r)).find? (·.size ≠ 0)).map
      (·.address) = ((pass.walk base ls).placements.find? (·.size ≠ 0)).map (·.address) := by
    rw [List.find?_map, Option.map_map]
    rfl
  have hbytes : totalSize ((pass.walk base ls).placements.map (·.relabel r))
      = totalSize (pass.walk base ls).placements := by
    rw [totalSize_eq_sum, totalSize_eq_sum, List.map_map]
    rfl
  rw [← hfirst, ← hbytes]
  rw [walk, ← Direction.map_order, htracks]
  rfl

end Pass

/-! ### Steps -/

variable {owner : TableId}

theorem Progress.tracks_step (r : Relabeling) (p : Progress) (s : Step) :
  Traced.Tracks r (·.relabel r) (p.step owner s) ((p.relabel r).step owner s)
  := by
  cases s with
  | anchor index split origin =>
      rw [step, step, lines_relabel, ← List.map_take, ← List.map_drop]
      apply (Pass.tracks_walk r _ _ _).bind
      intro before
      apply (Pass.tracks_walk r _ _ _).bind
      intro after
      rw [id, id, ← relabel_setBounds]
      exact Traced.tracks_pure (Progress.relabel r) _
  | walk index direction =>
      cases direction with
      | forward =>
          rw [step, step, lines_relabel]
          apply (Pass.tracks_walk r _ _ _).bind
          intro w
          rw [id, ← relabel_setBounds]
          exact Traced.tracks_pure (Progress.relabel r) _
      | backward =>
          rw [step, step, lines_relabel]
          apply (Pass.tracks_walk r _ _ _).bind
          intro w
          rw [id, ← relabel_setBounds]
          exact Traced.tracks_pure (Progress.relabel r) _

/-! ### Schedules -/

theorem firstOrigin?_relabel (r : Relabeling) (kind : OriginKind) (sections : List Section) :
  firstOrigin? kind (sections.map (·.relabel r))
    = (firstOrigin? kind sections).map fun site => { site with line := r.id site.line }
  := by
  simp only [firstOrigin?, List.zipIdx_map, List.findSome?_map, List.map_findSome?]
  congr 1
  funext x
  simp only [Function.comp_apply, Prod.map_fst, Prod.map_snd, id, Section.relabel,
    List.zipIdx_map, List.findSome?_map, List.map_findSome?]
  congr 1
  funext y
  simp only [Function.comp_apply, Prod.map_fst, Prod.map_snd, id, Option.map_map,
    NumberedLine.origin?_relabel, NumberedLine.id_relabel]
  rfl

section

variable {sections : List Section} {base : UInt16}

theorem anchor_relabel (r : Relabeling) {a : Anchor} (h : anchor sections base = .ok a) :
  anchor (sections.map (·.relabel r)) base = .ok a
  := by
  have hlast : ((sections.map (·.relabel r)).getLast?.map (·.lines.length)).getD 0
      = (sections.getLast?.map (·.lines.length)).getD 0 := by
    rw [List.getLast?_map, Option.map_map]
    congr 2
    funext s
    apply List.length_map
  rw [anchor] at h ⊢
  rw [firstOrigin?_relabel, firstOrigin?_relabel, List.length_map, hlast]
  cases horg : firstOrigin? .org sections with
  | some site =>
      rw [horg] at h
      obtain ⟨origin, horigin, h⟩ := Except.bind_eq_ok_iff.mp h
      exact Except.bind_eq_ok_iff.mpr ⟨origin, originValue_eq_ok horigin, h⟩
  | none =>
      rw [horg] at h
      cases hburn : firstOrigin? .burn sections with
      | some site =>
          rw [hburn] at h
          obtain ⟨last, hvalue, h⟩ := Except.bind_eq_ok_iff.mp h
          exact Except.bind_eq_ok_iff.mpr ⟨last, originValue_eq_ok hvalue, h⟩
      | none =>
          rw [hburn] at h
          apply h

theorem schedule_relabel (r : Relabeling) (hne : sections ≠ []) {steps : List Step}
    (h : schedule sections base = .ok steps) :
  schedule (sections.map (·.relabel r)) base = .ok steps
  := by
  rw [schedule_eq hne] at h
  obtain ⟨a, ha, rfl⟩ := Except.map_eq_ok_iff.mp h
  have hne' : sections.map (·.relabel r) ≠ [] := by simpa using hne
  rw [schedule_eq hne', anchor_relabel r ha, List.length_map]
  rfl

/-- Relabelled sections are laid out as they were. -/
theorem tracks_assign (r : Relabeling) (hne : sections ≠ []) :
  Traced.Tracks r (List.map (·.relabel r)) (assign owner sections base)
    (assign owner (sections.map (·.relabel r)) base)
  := by
  cases hschedule : schedule sections base with
  | error e =>
      intro laid h
      rw [assign, hschedule] at h
      cases h
  | ok steps =>
      rw [assign, assign, hschedule, schedule_relabel r hne hschedule]
      apply (Traced.tracks_foldlM (Progress.tracks_step r) steps _).bind
      intro p
      apply Traced.tracks_pure

end

end Pep10
