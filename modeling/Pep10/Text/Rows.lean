/-!
# Slices and rows

Parts of a list between two positions, a list cut into rows of one length, and texts made of
rows.
-/

namespace Pep10.Text

variable {α : Type}

/-- The elements from `start` to before `stop`, if the list has these positions. -/
def slice? (xs : List α) (start stop : Nat) : Option (List α) :=
  if start ≤ stop ∧ stop ≤ xs.length then some ((xs.drop start).take (stop - start)) else none

/-- Cut a list into rows of `n + 1` elements.  The last row may be shorter. -/
def rows (n : Nat) : List α → List (List α)
  | [] => []
  | x :: xs => (x :: xs.take n) :: rows n (xs.drop n)
termination_by xs => xs.length
decreasing_by
  simp only [List.length_drop, List.length_cons]
  omega

/-- Texts with a space between two of them. -/
def spaced (texts : List String) : String :=
  String.ofList ([' '].intercalate (texts.map String.toList))

/-- Texts on lines of their own. -/
def unlines (texts : List String) : String :=
  String.ofList (texts.flatMap fun text => text.toList ++ ['\n'])

end Pep10.Text
