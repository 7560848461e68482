import Pep10.Layout.Placement

/-!
# Laying out sections

The steps of a schedule are carried out one after the other.  A section that is walked backward
ends where the backward part so far begins, one that is walked forward begins where the forward
part so far ends.
-/

namespace Pep10

/-- The bounds of a section walked forward. -/
def Walk.forwardBounds (w : Walk) : Bounds :=
  let low := w.first?.getD w.exit
  { low, high := w.exit, base := low, byteCount := w.bytes }

/-- The bounds of a section walked backward.  The low bound lies below its first byte. -/
def Walk.backwardBounds (w : Walk) : Bounds :=
  { low := w.exit
    high := w.entry
    base := if w.bytes = 0 then w.exit else w.exit + 1
    byteCount := w.bytes }

/-- The bounds of a section whose lines up to a split are walked backward and the others
forward. -/
def Walk.anchorBounds (before after : Walk) : Bounds :=
  let start := after.first?.getD after.exit
  { low := if before.bytes = 0 then start else before.exit
    high := if after.bytes ≠ 0 ∨ before.bytes = 0 then after.exit else before.entry
    base := if before.bytes = 0 then start else before.exit + 1
    byteCount := before.bytes + after.bytes }

/-- The sections, of which some have been laid out, and the bases for the next ones. -/
structure Progress where
  sections : List Section
  backward : UInt16
  forward : UInt16

namespace Progress

/-- Note the bounds of a section. -/
def setBounds (p : Progress) (index : Nat) (bounds : Bounds) : Progress :=
  { p with sections := p.sections.modify index ({ · with bounds }) }

/-- The lines of a section. -/
def lines (p : Progress) (index : Nat) : List NumberedLine :=
  (p.sections[index]?.map (·.lines)).getD []

/-- Carry out one step. -/
def step (owner : TableId) (p : Progress) : Step → Traced Progress
  | .anchor index split origin => do
    let lines := p.lines index
    let before ← Pass.walk ⟨owner, index, .backward⟩ (origin - 1) (lines.take split)
    let after ← Pass.walk ⟨owner, index, .forward⟩ origin (lines.drop split)
    return { p.setBounds index (before.anchorBounds after) with
      backward := before.exit
      forward := after.exit }
  | .walk index .forward => do
    let w ← Pass.walk ⟨owner, index, .forward⟩ p.forward (p.lines index)
    return { p.setBounds index w.forwardBounds with forward := w.exit }
  | .walk index .backward => do
    let w ← Pass.walk ⟨owner, index, .backward⟩ p.backward (p.lines index)
    return { p.setBounds index w.backwardBounds with backward := w.exit }

end Progress

/-- Lay out sections: every line gets an address and every section its bounds.  The symbols
declared by the lines are those of the table `owner`. -/
def assign (owner : TableId) (sections : List Section) (base : UInt16) : Traced (List Section) :=
  match schedule sections base with
  | .error e => .fail e
  | .ok steps => do
    let p ← steps.foldlM (Progress.step owner) { sections, backward := base, forward := base }
    return p.sections

end Pep10
