import Pep10.Proofs.Layout.Run
import Pep10.Proofs.LineTable
import Pep10.Proofs.Splitting

/-!
# The law of a layout

Three ways of laying out a program, one law.  Lines that take bytes follow each other in the
order of the sections, an `.ORG` sends the next of them to its value, and what comes before the
first `.ORG` ends there.  Without an `.ORG` the program ends at its first `.BURN`, or else it
begins at the base.  How many bytes a line takes can depend on where it is visited, so the law
says that too, for every line.
-/

namespace Pep10

/-! ### Entries of the address table -/

theorem Placement.Faithful.not_org {p : Placement} (h : p.Faithful) (hsize : p.size ≠ 0) :
  ¬ p.line.IsOrg
  := by
  intro horg
  obtain ⟨a, ha⟩ := Option.isSome_iff_exists.mp horg
  rw [NumberedLine.origin?_eq_some_iff] at ha
  apply hsize
  rw [h.size_eq]
  simp [Line.size, Line.size?, ha]

/-- Placements whose lines have the entries that go with them. -/
structure Entered (t : LineTable Address) (ps : List Placement) : Prop where
  faithful : ∀ p ∈ ps, p.Faithful
  get?_eq : ∀ p ∈ ps,
    t.get? p.line.id = if p.size = 0 then none else some ⟨p.address, p.size⟩

theorem Entered.subset {t : LineTable Address} {ps qs : List Placement} (h : Entered t ps)
    (hsub : qs ⊆ ps) :
  Entered t qs
  := ⟨fun p hp => h.faithful p (hsub hp), fun p hp => h.get?_eq p (hsub hp)⟩

theorem entries_eq (ps : List Placement) :
  ps.filterMap Placement.entry?
    = (ps.filter (·.size ≠ 0)).map fun p => (p.line.id, ⟨p.address, p.size⟩)
  := by
  induction ps with
  | nil => rfl
  | cons p ps ih =>
      by_cases h : p.size = 0
      · rw [List.filterMap_cons_none (by simp [Placement.entry?, h]), ih,
          List.filter_cons_of_neg (by simp [h])]
      · rw [List.filterMap_cons_some (by rw [Placement.entry?, if_neg h]), ih,
          List.filter_cons_of_pos (by simp [h]), List.map_cons]

theorem nodup_entries {ps : List Placement} (h : (ps.map (·.line.id)).Nodup) :
  ((ps.filterMap Placement.entry?).map (·.1)).Nodup
  := by
  rw [entries_eq, List.map_map]
  apply List.Nodup.sublist _ h
  apply List.filter_sublist.map

/-- Lines that are placed once have the entries of their placements. -/
theorem Traced.get?_addresses {α : Type} {t : Traced α}
    (hnodup : (t.placements.map (·.line.id)).Nodup) {p : Placement} (hp : p ∈ t.placements) :
  t.addresses.get? p.line.id = if p.size = 0 then none else some ⟨p.address, p.size⟩
  := by
  apply Option.ext
  intro e
  rw [addresses, LineTable.get?_ofInserts_of_nodup (nodup_entries hnodup), entries_eq,
    List.mem_map]
  constructor
  · rintro ⟨q, hq, heq⟩
    obtain ⟨hq, hsize⟩ := List.mem_filter.mp hq
    cases List.inj_on_of_nodup_map hnodup hq hp (congrArg Prod.fst heq)
    rw [if_neg (by simpa using hsize)]
    apply congrArg (fun x => some x.2) heq
  · intro he
    split at he
    · cases he
    · next hsize =>
      cases he
      use p, List.mem_filter.mpr ⟨hp, by simpa using hsize⟩

/-! ### Lines in tiled placements -/

/-- Lines that take no bytes, none of them an `.ORG`. -/
structure Idle (t : LineTable Address) (ls : List NumberedLine) : Prop where
  get?_eq : ∀ l ∈ ls, t.get? l.id = none
  not_org : ∀ l ∈ ls, ¬ l.IsOrg

/-- A line begins at its first byte, an `.ORG` at its value. -/
inductive BeginsAt (t : LineTable Address) (l : NumberedLine) : UInt16 → Prop where
  | bytes {e : Address} : t.get? l.id = some e → BeginsAt t l e.address
  | org {a : Argument} {v : UInt16} : l.origin? .org = some a → originValue l.id a = .ok v →
      BeginsAt t l v

/-- A line ends after its last byte, an `.ORG` at its value. -/
inductive EndsAt (t : LineTable Address) (l : NumberedLine) : UInt16 → Prop where
  | bytes {e : Address} : t.get? l.id = some e → EndsAt t l (e.address + e.size)
  | org {a : Argument} {v : UInt16} : l.origin? .org = some a → originValue l.id a = .ok v →
      EndsAt t l v

namespace Tiled

variable {t : LineTable Address} {c d : UInt16} {qs : List Placement}

/-- Tiled placements around a line that takes bytes. -/
theorem around (h : Tiled c qs d) (ht : Entered t qs) {before after : List NumberedLine}
    {l : NumberedLine} {e : Address} (hlines : qs.map (·.line) = before ++ l :: after)
    (he : t.get? l.id = some e) :
  ∃ ps rs, ps.map (·.line) = before ∧ rs.map (·.line) = after ∧ Entered t ps ∧ Entered t rs
    ∧ Tiled c ps e.address ∧ Tiled (e.address + e.size) rs d
  := by
  obtain ⟨ps, qrs, rfl, hps, hqrs⟩ := List.map_eq_append_iff.mp hlines
  obtain ⟨q, rs, rfl, rfl, hrs⟩ := List.map_eq_cons_iff.mp hqrs
  have hq : q ∈ ps ++ q :: rs := by simp
  rw [ht.get?_eq q hq] at he
  split at he
  · cases he
  · next hsize =>
    cases he
    have horg := (ht.faithful q hq).not_org hsize
    obtain ⟨m, hps', hqrs'⟩ := append_iff.mp h
    obtain ⟨hq', hrs'⟩ := (cons_iff horg).mp hqrs'
    obtain rfl := hq' hsize
    use ps, rs, hps, hrs
    refine ⟨ht.subset ?_, ht.subset ?_, hps', hrs'⟩
    · apply List.subset_append_left
    · intro r hr
      simp [hr]

/-- Idle lines lead nowhere. -/
theorem end_eq_of_idle (h : Tiled c qs d) (ht : Entered t qs) (hidle : Idle t (qs.map (·.line))) :
  d = c
  := by
  apply h.end_eq
  · intro q hq
    have hnone := hidle.get?_eq q.line (List.mem_map_of_mem hq)
    rw [ht.get?_eq q hq] at hnone
    by_contra hsize
    rw [if_neg hsize] at hnone
    cases hnone
  · intro q hq
    apply hidle.not_org q.line (List.mem_map_of_mem hq)

/-- After its last line that is not idle, a tiling stays where that line ends. -/
theorem end_eq_of_endsAt (h : Tiled c qs d) (ht : Entered t qs) {before after : List NumberedLine}
    {l : NumberedLine} {v : UInt16} (hlines : qs.map (·.line) = before ++ l :: after)
    (hl : EndsAt t l v) (hafter : Idle t after) :
  d = v
  := by
  cases hl with
  | bytes he =>
      obtain ⟨_, rs, _, rfl, _, ht', _, htiled⟩ := h.around ht hlines he
      apply htiled.end_eq_of_idle ht' hafter
  | org ha hv =>
      obtain ⟨ps, qrs, rfl, -, hqrs⟩ := List.map_eq_append_iff.mp hlines
      obtain ⟨q, rs, rfl, rfl, rfl⟩ := List.map_eq_cons_iff.mp hqrs
      have hvalue := (ht.faithful q (by simp)).origin_eq ha
      obtain rfl := Except.ok.inj (hv.symm.trans hvalue)
      obtain ⟨_, -, hqrs⟩ := append_iff.mp h
      apply ((cons_org_iff (NumberedLine.isOrg_of_eq_some ha)).mp hqrs).end_eq_of_idle _ hafter
      apply ht.subset
      intro r hr
      simp [hr]

/-- Until its first line that is not idle, a tiling stays where it begins. -/
theorem address_eq_of_idle (h : Tiled c qs d) (ht : Entered t qs)
    {before after : List NumberedLine} {l : NumberedLine} {e : Address}
    (hlines : qs.map (·.line) = before ++ l :: after) (hbefore : Idle t before)
    (he : t.get? l.id = some e) :
  e.address = c
  := by
  obtain ⟨ps, _, rfl, _, ht', _, htiled, _⟩ := h.around ht hlines he
  apply htiled.end_eq_of_idle ht' hbefore

end Tiled

/-! ### The law -/

/-- Two lines that take bytes, and between them only lines that take none. -/
structure Consecutive (t : LineTable Address) (order : List NumberedLine)
    (l₁ : NumberedLine) (between : List NumberedLine) (l₂ : NumberedLine) (e₁ e₂ : Address) :
    Prop where
  order_eq : ∃ before after, order = before ++ l₁ :: (between ++ l₂ :: after)
  get?_left : t.get? l₁.id = some e₁
  get?_between : ∀ l ∈ between, t.get? l.id = none
  get?_right : t.get? l₂.id = some e₂

/-- The lines that are walked forward: those from the first `.ORG` on.  Without an `.ORG` they are
all the lines, or none of them if there is a `.BURN`. -/
def walkedForward (order : List NumberedLine) : List NumberedLine :=
  if ∃ l ∈ order, l.IsOrg then order.dropWhile (¬ ·.IsOrg)
  else if ∃ l ∈ order, (l.origin? .burn).isSome then []
  else order

/-- Where a line is visited that is walked forward. -/
structure VisitedForward (base : UInt16) (order : List NumberedLine) (t : LineTable Address)
    (p : Placement) : Prop where
  /-- A line that takes bytes is visited at the first of them. -/
  address : p.line.line.size p.base ≠ 0 → p.base = p.address
  /-- Any line is visited where the last line before it ends that takes bytes or is an `.ORG`. -/
  after : ∀ {before l between rest v}, order = before ++ l :: (between ++ p.line :: rest) →
    Idle t between → EndsAt t l v → p.base = v
  /-- If there is none, the line is visited at the base. -/
  first : (∀ l ∈ order, ¬ l.IsOrg) →
    ∀ {between rest}, order = between ++ p.line :: rest → Idle t between → p.base = base

/-- Where a line is visited that is walked backward. -/
structure VisitedBackward (order : List NumberedLine) (t : LineTable Address) (p : Placement) :
    Prop where
  /-- A line that takes bytes is visited at the last of them. -/
  address : p.line.line.size p.base ≠ 0 → p.base + 1 = p.address + p.line.line.size p.base
  /-- Any line is visited just below the next line that takes bytes or is an `.ORG`. -/
  before : ∀ {before between l rest v}, order = before ++ p.line :: (between ++ l :: rest) →
    Idle t between → BeginsAt t l v → p.base + 1 = v
  /-- If there is none, the line is visited at the first `.BURN`. -/
  last : (∀ l ∈ order, ¬ l.IsOrg) → ∀ {b a},
    order.find? (fun l => (l.origin? .burn).isSome) = some b → b.origin? .burn = some a →
    ∀ {before between}, order = before ++ p.line :: between → Idle t between →
      originValue b.id a = .ok p.base

/-- What the addresses of lines have to do with each other.  The lines are given in the order of
their sections, with their placements and the address table. -/
structure LayoutLaw (base : UInt16) (order : List NumberedLine) (ps : List Placement)
    (t : LineTable Address) : Prop where
  /-- Every line is placed once. -/
  lines_perm : (ps.map (·.line)).Perm order
  /-- A line has an entry when it takes bytes at the base where it is visited. -/
  get?_eq : ∀ p ∈ ps, t.get? p.line.id
    = if p.line.line.size p.base = 0 then none
      else some ⟨p.address, p.line.line.size p.base⟩
  forward : ∀ p ∈ ps, p.line ∈ walkedForward order → VisitedForward base order t p
  backward : ∀ p ∈ ps, p.line ∉ walkedForward order → VisitedBackward order t p
  /-- A line begins where the one before it ends. -/
  next : ∀ {l₁ between l₂ e₁ e₂}, Consecutive t order l₁ between l₂ e₁ e₂ →
    (∀ l ∈ between, ¬ l.IsOrg) → e₂.address = e₁.address + e₁.size
  /-- A line begins at the last `.ORG` before it. -/
  next_org : ∀ {l₁ between l₂ e₁ e₂ before l a after}, Consecutive t order l₁ between l₂ e₁ e₂ →
    between = before ++ l :: after → l.origin? .org = some a → (∀ l' ∈ after, ¬ l'.IsOrg) →
    originValue l.id a = .ok e₂.address
  /-- The line before the first `.ORG` ends there. -/
  end_anchor : ∀ {l₁ between l₂ e₁ e₂ l a}, Consecutive t order l₁ between l₂ e₁ e₂ →
    order.find? (·.IsOrg) = some l → l ∈ between → l.origin? .org = some a →
    originValue l.id a = .ok (e₁.address + e₁.size)
  /-- Without an origin the first line begins at the base. -/
  first : (∀ l ∈ order, ¬ l.IsOrg) → (∀ l ∈ order, l.origin? .burn = none) →
    ∀ {before l after e}, order = before ++ l :: after → (∀ l' ∈ before, t.get? l'.id = none) →
      t.get? l.id = some e → e.address = base
  /-- With a `.BURN` and no `.ORG` the last line ends at the first `.BURN`. -/
  last : (∀ l ∈ order, ¬ l.IsOrg) → ∀ {b a},
    order.find? (fun l => (l.origin? .burn).isSome) = some b → b.origin? .burn = some a →
    ∀ {before l after e}, order = before ++ l :: after → (∀ l' ∈ after, t.get? l'.id = none) →
      t.get? l.id = some e →
      ∃ burn, originValue b.id a = .ok burn ∧ e.address + e.size = burn + 1

/-! ### Both sides of an origin -/

/-- The placements of a program, in the order of its lines, before and after the origin it is laid
out from.  They reach from `c` over the origin to `d`. -/
structure Sides (base : UInt16) (order : List NumberedLine) (t : LineTable Address)
    (c origin d : UInt16) (below above : List Placement) : Prop where
  lines_eq : (below ++ above).map (·.line) = order
  nodup : order.Nodup
  entered : Entered t (below ++ above)
  below_tiled : Tiled c below origin
  above_tiled : Tiled origin above d
  below_bases : BasesBackward below origin
  above_bases : BasesForward origin above
  below_address : ∀ q ∈ below, q.size ≠ 0 → q.base + 1 = q.address + q.size
  above_address : ∀ q ∈ above, q.size ≠ 0 → q.base = q.address
  below_org : ∀ l ∈ below.map (·.line), ¬ l.IsOrg
  forward_eq : walkedForward order = above.map (·.line)
  of_org : ∀ {l a}, order.find? (·.IsOrg) = some l → l.origin? .org = some a →
    (∃ rest, above.map (·.line) = l :: rest) ∧ originValue l.id a = .ok origin
  of_burn : (∀ l ∈ order, ¬ l.IsOrg) → ∀ {l a},
    order.find? (fun l => (l.origin? .burn).isSome) = some l → l.origin? .burn = some a →
    above = [] ∧ ∃ burn, originValue l.id a = .ok burn ∧ origin = burn + 1
  of_base : (∀ l ∈ order, ¬ l.IsOrg) → (∀ l ∈ order, l.origin? .burn = none) →
    below = [] ∧ origin = base

/-- Lists without duplicates are equal if they are the same around an element. -/
theorem append_cons_inj_of_nodup {α : Type} {x : α} {xs ys xs' ys' : List α}
    (hnodup : (xs ++ x :: ys).Nodup) (h : xs ++ x :: ys = xs' ++ x :: ys') :
  xs = xs' ∧ ys = ys'
  := by
  rw [List.nodup_middle, List.nodup_cons, List.mem_append, not_or] at hnodup
  obtain ⟨hxs, -, hys⟩ := (List.append_cons_inj_of_notMem hnodup.1.1 hnodup.1.2).mp h
  use hxs, hys

namespace Sides

variable {t : LineTable Address} {order before between after : List NumberedLine}
  {base c origin d v : UInt16} {below above : List Placement} {q : Placement}
  {l l' : NumberedLine} {e : Address}

theorem tiled (h : Sides base order t c origin d below above) :
  Tiled c (below ++ above) d
  := h.below_tiled.append h.above_tiled

/-- A line goes on from the end of the last line before it that is not idle. -/
theorem address_eq (h : Sides base order t c origin d below above)
    (horder : order = before ++ l :: (between ++ l' :: after)) (hl : EndsAt t l v)
    (hbetween : Idle t between) (he : t.get? l'.id = some e) :
  e.address = v
  := by
  have hlines : (below ++ above).map (·.line) = (before ++ l :: between) ++ l' :: after := by
    simp [h.lines_eq, horder]
  obtain ⟨ps, _, hps, _, ht, _, htiled, _⟩ := h.tiled.around h.entered hlines he
  apply htiled.end_eq_of_endsAt ht hps hl hbetween

/-- The lines before one that is visited forward lead to its base. -/
theorem tiled_before (h : Sides base order t c origin d below above) (hq : q ∈ above)
    (horder : order = before ++ q.line :: after) :
  ∃ qs, qs.map (·.line) = before ∧ Entered t qs ∧ Tiled c qs q.base
  := by
  obtain ⟨pre, post, rfl⟩ := List.append_of_mem hq
  have hlines : (below ++ pre).map (·.line) ++ q.line :: post.map (·.line) = order := by
    simp [← h.lines_eq]
  have hnodup := h.nodup
  rw [← hlines] at hnodup horder
  refine ⟨below ++ pre, (append_cons_inj_of_nodup hnodup horder).1, ?_, ?_⟩
  · apply h.entered.subset
    rw [← List.append_assoc]
    apply List.subset_append_left
  · apply h.below_tiled.append (h.above_bases pre q post rfl)

/-- The lines after one that is visited backward lead on from above its base. -/
theorem tiled_after (h : Sides base order t c origin d below above) (hq : q ∈ below)
    (horder : order = before ++ q.line :: after) :
  ∃ qs, qs ⊆ below ∧ (qs ++ above).map (·.line) = after ∧ Tiled (q.base + 1) qs origin
  := by
  obtain ⟨pre, post, rfl⟩ := List.append_of_mem hq
  have hlines : pre.map (·.line) ++ q.line :: (post ++ above).map (·.line) = order := by
    simp [← h.lines_eq]
  have hnodup := h.nodup
  rw [← hlines] at hnodup horder
  refine ⟨post, ?_, (append_cons_inj_of_nodup hnodup horder).2, h.below_bases pre q post rfl⟩
  intro r hr
  simp [hr]

theorem entered_append {qs : List Placement} (h : Sides base order t c origin d below above)
    (hsub : qs ⊆ below) :
  Entered t (qs ++ above)
  := by
  apply h.entered.subset
  apply List.append_subset.mpr
  use List.subset_append_of_subset_left _ hsub
  apply List.subset_append_right

/-- The last line before an `.ORG` that is not idle ends where the `.ORG` is. -/
theorem origin_eq (h : Sides base order t c origin d below above) {rest : List NumberedLine}
    (habove : above.map (·.line) = l' :: rest)
    (horder : order = before ++ l :: (between ++ l' :: after)) (hl : EndsAt t l v)
    (hbetween : ∀ l ∈ between, t.get? l.id = none) :
  origin = v
  := by
  have hlines : below.map (·.line) ++ l' :: rest = (before ++ l :: between) ++ l' :: after := by
    rw [← habove, ← List.map_append, h.lines_eq, horder]
    simp
  have hnodup := h.nodup
  rw [← h.lines_eq, List.map_append, habove] at hnodup
  have hbelow := (append_cons_inj_of_nodup hnodup hlines).1
  apply h.below_tiled.end_eq_of_endsAt _ hbelow hl
  · use hbetween
    intro x hx
    apply h.below_org x
    rw [hbelow]
    simp [hx]
  · apply h.entered.subset (List.subset_append_left _ _)

/-- Only idle lines between a line that is visited backward and an `.ORG`: the `.ORG` is the first
one, and the line is visited below it. -/
theorem base_eq_origin (h : Sides base order t c origin d below above) (hq : q ∈ below)
    (horder : order = before ++ q.line :: (between ++ l :: after)) (hbetween : Idle t between)
    (hl : l.IsOrg) :
  order.find? (·.IsOrg) = some l ∧ q.base + 1 = origin
  := by
  obtain ⟨qs, hsub, hqs, htiled⟩ := h.tiled_after hq horder
  have hbelow : ∀ x ∈ qs.map (·.line), ¬ x.IsOrg :=
    fun x hx => h.below_org x (List.map_subset _ hsub hx)
  obtain ⟨o, hfind⟩ : ∃ o, order.find? (·.IsOrg) = some o := by
    rw [← Option.isSome_iff_exists, List.find?_isSome]
    use l
    simp [horder, hl]
  have ho : o.IsOrg := by simpa using List.find?_some hfind
  obtain ⟨argument, hargument⟩ := Option.isSome_iff_exists.mp ho
  obtain ⟨⟨rest, habove⟩, -⟩ := h.of_org hfind hargument
  rw [List.map_append, habove] at hqs
  have hfirst := find?_isOrg_append_cons hbelow ho rest
  rw [hqs, find?_isOrg_append_cons hbetween.not_org hl] at hfirst
  obtain rfl := Option.some_inj.mp hfirst
  use hfind
  have hnodup := h.nodup
  rw [horder] at hnodup
  obtain ⟨rfl, -⟩ := append_cons_inj_of_nodup hnodup.of_append_right.of_cons hqs.symm
  symm
  apply htiled.end_eq_of_idle _ hbetween
  apply (h.entered_append hsub).subset (List.subset_append_left _ _)

/-- An `.ORG` among lines that have been placed has a value. -/
theorem exists_originValue (h : Sides base order t c origin d below above) (hl : l ∈ order)
    {a : Argument} (ha : l.origin? .org = some a) :
  ∃ v, originValue l.id a = .ok v
  := by
  rw [← h.lines_eq] at hl
  obtain ⟨q, hq, rfl⟩ := List.mem_map.mp hl
  exact ⟨_, (h.entered.faithful q hq).origin_eq ha⟩

theorem start_eq (h : Sides base order t c origin d below above) (hnone : ∀ l ∈ order, ¬ l.IsOrg)
    (hburn : ∀ l ∈ order, l.origin? .burn = none) :
  c = base
  := by
  obtain ⟨rfl, rfl⟩ := h.of_base hnone hburn
  apply h.below_tiled

theorem end_eq (h : Sides base order t c origin d below above) (hnone : ∀ l ∈ order, ¬ l.IsOrg)
    {a : Argument} (hfind : order.find? (fun l => (l.origin? .burn).isSome) = some l)
    (ha : l.origin? .burn = some a) :
  ∃ burn, originValue l.id a = .ok burn ∧ d = burn + 1
  := by
  obtain ⟨rfl, burn, hburn, rfl⟩ := h.of_burn hnone hfind ha
  use burn, hburn, h.above_tiled.symm

/-- Without an `.ORG`, only a program without a `.BURN` has lines after its origin. -/
theorem burn_eq_none (h : Sides base order t c origin d below above)
    (hnone : ∀ l ∈ order, ¬ l.IsOrg) (hq : q ∈ above) :
  ∀ l ∈ order, l.origin? .burn = none
  := by
  cases hfind : order.find? (fun l => (l.origin? .burn).isSome) with
  | none => simpa using List.find?_eq_none.mp hfind
  | some b =>
      have hb : (b.origin? .burn).isSome := by simpa using List.find?_some hfind
      obtain ⟨a, ha⟩ := Option.isSome_iff_exists.mp hb
      obtain ⟨rfl, -⟩ := h.of_burn hnone hfind ha
      cases hq

theorem visitedForward (h : Sides base order t c origin d below above) (hq : q ∈ above) :
  VisitedForward base order t q
  := by
  have hsize := (h.entered.faithful q (List.mem_append_right _ hq)).size_eq
  constructor
  · intro hne
    rw [← hsize] at hne
    apply h.above_address q hq hne
  · intro before l between rest v horder hbetween hl
    have horder' : order = (before ++ l :: between) ++ q.line :: rest := by simp [horder]
    obtain ⟨qs, hqs, ht, htiled⟩ := h.tiled_before hq horder'
    apply htiled.end_eq_of_endsAt ht hqs hl hbetween
  · intro hnone between rest horder hbetween
    obtain ⟨qs, rfl, ht, htiled⟩ := h.tiled_before hq horder
    rw [htiled.end_eq_of_idle ht hbetween]
    apply h.start_eq hnone (h.burn_eq_none hnone hq)

theorem visitedBackward (h : Sides base order t c origin d below above) (hq : q ∈ below) :
  VisitedBackward order t q
  := by
  have hsize := (h.entered.faithful q (List.mem_append_left _ hq)).size_eq
  constructor
  · intro hne
    rw [← hsize] at hne ⊢
    apply h.below_address q hq hne
  · intro before between l rest v horder hbetween hl
    cases hl with
    | bytes he =>
        obtain ⟨qs, hsub, hqs, htiled⟩ := h.tiled_after hq horder
        symm
        apply (htiled.append h.above_tiled).address_eq_of_idle (h.entered_append hsub) hqs
          hbetween he
    | org ha hv =>
        obtain ⟨hfind, hbase⟩ := h.base_eq_origin hq horder hbetween
          (NumberedLine.isOrg_of_eq_some ha)
        rw [hbase]
        apply Except.ok.inj ((h.of_org hfind ha).2.symm.trans hv)
  · intro hnone b a hfind ha before between horder hbetween
    obtain ⟨burn, hburn, hend⟩ := h.end_eq hnone hfind ha
    obtain ⟨qs, hsub, rfl, htiled⟩ := h.tiled_after hq horder
    rw [(htiled.append h.above_tiled).end_eq_of_idle (h.entered_append hsub) hbetween] at hend
    rw [hburn, (UInt16.add_left_inj 1).mp hend]

end Sides

theorem walkedForward_eq_above {sections : List Section} (hne : sections ≠ []) {base : UInt16}
    {a : Anchor} (ha : anchor sections base = .ok a) :
  walkedForward (sectionOrder sections) = a.above sections
  := by
  have horder := Anchor.below_append_above (anchor_index_lt hne ha)
  rw [walkedForward]
  obtain ⟨l, rest, _, habove, hl, _, hbelow⟩ | ⟨hnone, habove, b, _, _, hfind, hb, _⟩
    | ⟨hnone, hburn, hbelow, _⟩ := anchor_cases hne ha
  · have hl' := NumberedLine.isOrg_of_eq_some hl
    rw [habove] at horder ⊢
    rw [if_pos ⟨l, by simp [← horder], hl'⟩, ← horder, List.dropWhile_append_of_pos,
      List.dropWhile_cons_of_neg]
    · simpa using hl'
    · simpa using hbelow
  · rw [if_neg (by simpa using hnone), if_pos, habove]
    use b, List.mem_of_find?_eq_some hfind, Option.isSome_of_eq_some hb
  · rw [if_neg (by simpa using hnone), if_neg, ← horder, hbelow, List.nil_append]
    rintro ⟨l, hl, hsome⟩
    simp [hburn l hl] at hsome

/-- The sections of a program hold each line once. -/
theorem Program.nodup_sectionOrder {program : Program} {symbols : SymbolTable} {initial : Heading}
    {sections : List Section} (h : program.sections symbols initial = .ok sections) :
  ((sectionOrder sections).map (·.id)).Nodup
  := by
  rw [((Program.sectionOrder_perm h).map (·.id)).nodup_iff, Program.map_id_numbered]
  apply List.nodup_range

namespace Frontier

variable {owner : TableId} {sections : List Section} {a : Anchor} {lo hi : Nat} {p : Progress}
  {ps below above : List Placement} {q : Placement}

theorem faithful (h : Frontier owner sections a lo hi p ps below above) :
  ∀ q ∈ below ++ above, q.Faithful
  := by
  rw [List.forall_mem_append]
  constructor
  · intro q hq
    obtain ⟨_, _, hplace⟩ := h.below_placed q hq
    apply Pass.place_faithful hplace
  · intro q hq
    obtain ⟨_, _, hplace⟩ := h.above_placed q hq
    apply Pass.place_faithful hplace

/-- A line above the anchor is visited at its first byte. -/
theorem base_eq_of_mem_above (h : Frontier owner sections a lo hi p ps below above)
    (hq : q ∈ above) (hsize : q.size ≠ 0) :
  q.base = q.address
  := by
  have hfaithful := h.faithful q (List.mem_append_right _ hq)
  obtain ⟨_, _, hplace⟩ := h.above_placed q hq
  symm
  apply (Pass.place_forward hplace rfl (hfaithful.not_org hsize)).1

/-- A line below the anchor is visited at its last byte. -/
theorem base_eq_of_mem_below (h : Frontier owner sections a lo hi p ps below above)
    (hq : q ∈ below) (hsize : q.size ≠ 0) :
  q.base + 1 = q.address + q.size
  := by
  have hfaithful := h.faithful q (List.mem_append_left _ hq)
  obtain ⟨_, _, hplace⟩ := h.below_placed q hq
  obtain ⟨rfl, haddress⟩ := Pass.place_backward hplace rfl (hfaithful.not_org hsize)
  rw [if_neg hsize] at haddress
  rw [haddress]
  grind

end Frontier

section

variable {program : Program} {symbols : SymbolTable} {initial : Heading}
  {sections laid : List Section} {base : UInt16}

/-- The placements of a layout, in the order of the lines, on either side of its origin. -/
theorem assign_sides (hsections : program.sections symbols initial = .ok sections)
    (hassign : (assign symbols.id sections base).outcome = .ok laid) :
  ∃ a p below above, p.sections = laid
    ∧ Frontier symbols.id sections a 0 sections.length p
      (assign symbols.id sections base).placements below above
    ∧ Sides base (sectionOrder sections) (assign symbols.id sections base).addresses
      (p.backward + 1) a.origin p.forward below above
  := by
  have hne := Program.sections_ne_nil hsections
  have hids := Program.nodup_sectionOrder hsections
  obtain ⟨a, p, below, above, ha, hp, hfrontier⟩ := assign_frontier hne hassign
  have hbelow : below.map (·.line) = a.below sections := hfrontier.below_lines
  have habove : above.map (·.line) = a.above sections := by
    rw [hfrontier.above_lines, List.take_length]
    rfl
  have hlines : (below ++ above).map (·.line) = sectionOrder sections := by
    rw [List.map_append, hbelow, habove, Anchor.below_append_above (anchor_index_lt hne ha)]
  refine ⟨a, p, below, above, hp, hfrontier, {
    lines_eq := hlines
    nodup := hids.of_map
    entered := ⟨hfrontier.faithful, ?_⟩
    below_tiled := hfrontier.below_tiled
    above_tiled := hfrontier.above_tiled
    below_bases := hfrontier.below_bases
    above_bases := hfrontier.above_bases
    below_address := fun q hq => hfrontier.base_eq_of_mem_below hq
    above_address := fun q hq => hfrontier.base_eq_of_mem_above hq
    below_org := hbelow ▸ anchor_below_not_org hne ha
    forward_eq := habove ▸ walkedForward_eq_above hne ha
    of_org := habove ▸ anchor_of_org hne ha
    of_burn := ?_
    of_base := ?_ }⟩
  · intro q hq
    apply Traced.get?_addresses _ (hfrontier.perm.mem_iff.mpr hq)
    rw [← hlines, List.map_map] at hids
    rw [(hfrontier.perm.map (·.line.id)).nodup_iff]
    apply hids
  · intro hnone l argument hfind hl
    rw [← List.map_eq_nil_iff, habove]
    apply anchor_of_burn hne ha hnone hfind hl
  · intro hnone hburn
    rw [← List.map_eq_nil_iff, hbelow]
    apply anchor_of_base hne ha hnone hburn

/-- A layout places each line once. -/
theorem assign_lines_perm (hsections : program.sections symbols initial = .ok sections)
    (hassign : (assign symbols.id sections base).outcome = .ok laid) :
  ((assign symbols.id sections base).placements.map (·.line)).Perm (sectionOrder sections)
  := by
  obtain ⟨_, _, below, above, _, hfrontier, hsides⟩ := assign_sides hsections hassign
  rw [← hsides.lines_eq]
  apply hfrontier.perm.map

/-- A program that can be laid out is laid out according to the law. -/
theorem assign_layoutLaw (hsections : program.sections symbols initial = .ok sections)
    (hassign : (assign symbols.id sections base).outcome = .ok laid) :
  LayoutLaw base (sectionOrder sections) (assign symbols.id sections base).placements
    (assign symbols.id sections base).addresses
  := by
  obtain ⟨a, p, below, above, rfl, hfrontier, h⟩ := assign_sides hsections hassign
  have hmem : ∀ q ∈ (assign symbols.id sections base).placements, q ∈ below ++ above :=
    fun q => hfrontier.perm.mem_iff.mp
  refine {
    lines_perm := assign_lines_perm hsections hassign
    get?_eq := ?_
    forward := ?_
    backward := ?_
    next := ?_
    next_org := ?_
    end_anchor := ?_
    first := ?_
    last := ?_ }
  · intro q hq
    rw [h.entered.get?_eq q (hmem q hq), (h.entered.faithful q (hmem q hq)).size_eq]
  · intro q hq hline
    apply h.visitedForward
    apply (List.mem_append.mp (hmem q hq)).resolve_left
    intro hbelow
    have hnodup := h.nodup
    rw [h.forward_eq] at hline
    rw [← h.lines_eq, List.map_append, List.nodup_append] at hnodup
    apply hnodup.2.2 q.line (List.mem_map_of_mem hbelow) q.line hline rfl
  · intro q hq hline
    apply h.visitedBackward
    apply (List.mem_append.mp (hmem q hq)).resolve_right
    intro habove
    rw [h.forward_eq] at hline
    apply hline (List.mem_map_of_mem habove)
  · intro l₁ between l₂ e₁ e₂ hc horg
    obtain ⟨before, after, horder⟩ := hc.order_eq
    apply h.address_eq horder (.bytes hc.get?_left) ⟨hc.get?_between, horg⟩ hc.get?_right
  · rintro l₁ _ l₂ e₁ e₂ pre l argument post hc rfl hl hpost
    obtain ⟨before, after, horder⟩ := hc.order_eq
    have horder' : sectionOrder sections
        = (before ++ l₁ :: pre) ++ l :: (post ++ l₂ :: after) := by
      simp [horder]
    obtain ⟨v, hv⟩ := h.exists_originValue (by simp [horder']) hl
    rw [hv, h.address_eq horder' (.org hl hv) ⟨_, hpost⟩ hc.get?_right]
    intro l' hl'
    apply hc.get?_between l'
    simp [hl']
  · intro l₁ between l₂ e₁ e₂ l argument hc hfind hl hargument
    obtain ⟨⟨rest, habove⟩, horigin⟩ := h.of_org hfind hargument
    obtain ⟨before, after, horder⟩ := hc.order_eq
    obtain ⟨pre, post, rfl⟩ := List.append_of_mem hl
    have horder' : sectionOrder sections
        = before ++ l₁ :: (pre ++ l :: (post ++ l₂ :: after)) := by
      simp [horder]
    rw [horigin, h.origin_eq habove horder' (.bytes hc.get?_left)]
    intro l' hl'
    apply hc.get?_between l'
    simp [hl']
  · intro hnone hburn before l after e horder hbefore he
    rw [← h.start_eq hnone hburn]
    apply h.tiled.address_eq_of_idle h.entered (h.lines_eq.trans horder) ⟨hbefore, _⟩ he
    intro l' hl'
    apply hnone l'
    simp [horder, hl']
  · intro hnone b argument hfind hargument before l after e horder hafter he
    obtain ⟨burn, hburn, hend⟩ := h.end_eq hnone hfind hargument
    use burn, hburn
    rw [← hend]
    symm
    apply h.tiled.end_eq_of_endsAt h.entered (h.lines_eq.trans horder) (.bytes he) ⟨hafter, _⟩
    intro l' hl'
    apply hnone l'
    simp [horder, hl']

end

/-- A word, a section that is opened between the lines of another, and an origin there. -/
def Program.interleaved : Program :=
  [{ kind := .data .word (.literal (.decimal 1)) },
    { kind := .opening ⟨"data", { readable := true }⟩ },
    { kind := .align (.literal (.decimal 4)) },
    { kind := .opening .text },
    { kind := .origin .org (.literal (.hexadecimal 0x100)) },
    { kind := .data .byte (.literal (.decimal 2)) }]

theorem assign_layoutLaw_interleaved :
  Program.interleaved.sections { id := 0 } .text
      = .ok (outline .text Program.interleaved.numbered)
    ∧ (∃ laid, (assign 0 (outline .text Program.interleaved.numbered) 0).outcome = .ok laid)
    ∧ LayoutLaw 0 (sectionOrder (outline .text Program.interleaved.numbered))
      (assign 0 (outline .text Program.interleaved.numbered) 0).placements
      (assign 0 (outline .text Program.interleaved.numbered) 0).addresses
  := by
  have hsections : Program.interleaved.sections { id := 0 } .text
      = .ok (outline .text Program.interleaved.numbered) := rfl
  have hassign : ∃ laid,
      (assign 0 (outline .text Program.interleaved.numbered) 0).outcome = .ok laid := ⟨_, rfl⟩
  use hsections, hassign
  obtain ⟨laid, hlaid⟩ := hassign
  apply assign_layoutLaw hsections hlaid

end Pep10
