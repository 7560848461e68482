import Pep10.Section

/-!
# Schedules

The order in which sections are laid out.  The section with the first `.ORG` is the anchor: the
sections before it are laid out backward from it, those after it forward.  Without an `.ORG`, a
`.BURN` fixes the last address of the program and everything is laid out backward.  Without
either, everything is laid out forward from a base address.
-/

namespace Pep10

/-- Which way a section is walked. -/
inductive Direction where
  | forward
  | backward
  deriving DecidableEq

/-- A list in the order in which it is walked. -/
def Direction.order {α : Type} : Direction → List α → List α
  | .forward, xs => xs
  | .backward, xs => xs.reverse

/-- One section of a schedule. -/
inductive Step where
  /-- The first section to be laid out.  The lines before the position `split` go backward from
  below `origin`, the others forward from `origin`. -/
  | anchor (index split : Nat) (origin : UInt16)
  /-- A section next to one that has been laid out. -/
  | walk (index : Nat) (direction : Direction)
  deriving DecidableEq

/-- The section of a step. -/
def Step.index : Step → Nat
  | .anchor index _ _ => index
  | .walk index _ => index

/-- The address an origin line fixes. -/
def originValue (line : LineId) : Argument → Except AssemblyError UInt16
  | .symbolic name _ => .error (.unsupportedArgument line (.symbolicOrigin name))
  | .literal l =>
    match l.value 2 with
    | .ok value => .ok value.toUInt16
    | .error e => .error (.unsupportedArgument line (.constant e))

/-- The operand of an origin line of a kind. -/
def NumberedLine.origin? (kind : OriginKind) (l : NumberedLine) : Option Argument :=
  match l.line.kind with
  | .origin found a => if found = kind then some a else none
  | _ => none

/-- An origin line: the section it is in, its position there, its number and its operand. -/
structure OriginSite where
  index : Nat
  position : Nat
  line : LineId
  argument : Argument

/-- The first origin line of a kind, in the order of the sections. -/
def firstOrigin? (kind : OriginKind) (sections : List Section) : Option OriginSite :=
  sections.zipIdx.findSome? fun (s, index) =>
    s.lines.zipIdx.findSome? fun (l, position) =>
      (l.origin? kind).map fun argument => ⟨index, position, l.id, argument⟩

/-- The sections below `n` backward, the last one first. -/
def backwardBelow (n : Nat) : List Step :=
  (List.range n).reverse.map (.walk · .backward)

/-- The sections from `first` to before `n` forward. -/
def forwardFrom (first n : Nat) : List Step :=
  (List.range' first (n - first)).map (.walk · .forward)

/-- The steps for a list of sections, for a program that starts at `base` if it has no origin. -/
def planSteps (sections : List Section) (base : UInt16) : Except AssemblyError (List Step) :=
  let n := sections.length
  match firstOrigin? .org sections with
  | some site => do
    let origin ← originValue site.line site.argument
    return .anchor site.index site.position origin ::
      (backwardBelow site.index ++ forwardFrom (site.index + 1) n)
  | none =>
    match firstOrigin? .burn sections with
    | some site => do
      let last ← originValue site.line site.argument
      let split := (sections.getLast?.map (·.lines.length)).getD 0
      return .anchor (n - 1) split (last + 1) :: backwardBelow (n - 1)
    | none =>
      if n = 0 then return []
      else return .anchor 0 0 base :: forwardFrom 1 n

/-- The first step whose section is not one of `n` or has come before. -/
def repeatedStep? (n : Nat) : (seen : List Nat) → List Step → Option Nat
  | _, [] => none
  | seen, step :: steps =>
    if n ≤ step.index || seen.contains step.index then some step.index
    else repeatedStep? n (step.index :: seen) steps

/-- The schedule of a list of sections, in which every section comes once. -/
def schedule (sections : List Section) (base : UInt16) : Except AssemblyError (List Step) := do
  let steps ← planSteps sections base
  match repeatedStep? sections.length [] steps with
  | some index => throw (.inconsistent none (.repeatedSection index))
  | none =>
    if steps.length = sections.length then return steps
    else throw (.inconsistent none (.incompleteSchedule steps.length sections.length))

end Pep10
