import Pep10.Line.Format
import Mathlib.Data.List.Basic

/-!
# Labels and comments of formatted lines

A formatted line begins with its label and ends with its comment, less the blanks at the end.  The
one exception is a comment line with a label: its comment starts at the left margin, so it takes
the place of the label.
-/

namespace Pep10

namespace Text

/-- Trimming does not go past a character that is no blank. -/
theorem trimEnd_append {s : String} {c : Char} (hlast : s.toList.getLast? = some c)
    (hc : isBlank c = false) (t : String) :
  trimEnd (s ++ t) = s ++ trimEnd t
  := by
  obtain ⟨front, hs⟩ := List.getLast?_eq_some_iff.mp hlast
  have hkept : s.toList.reverse.dropWhile isBlank = s.toList.reverse := by
    rw [hs, List.reverse_append, List.reverse_singleton, List.singleton_append,
      List.dropWhile_cons_of_neg (by simp [hc])]
  apply String.toList_inj.mp
  rw [trimEnd, trimEnd, String.toList_append, String.toList_append, String.toList_ofList,
    String.toList_ofList, List.reverse_append, List.dropWhile_append]
  split
  · next hempty =>
    rw [List.isEmpty_iff.mp hempty, hkept, List.reverse_reverse, List.reverse_nil, List.append_nil]
  · rw [List.reverse_append, List.reverse_reverse]

end Text

namespace Line

variable {l : Line} {symbols : SymbolTable} {name comment : String}

/-- What a formatted line has before its comment. -/
def margin (l : Line) (symbols : SymbolTable) : String :=
  if l.kind = .comment || (l.codeText symbols).isEmpty then ""
  else Text.padEnd commentColumn (l.codeText symbols)

/-- A comment is kept, less the blanks at its end. -/
theorem format_of_comment (h : l.comment? = some comment) :
  l.format symbols = l.margin symbols ++ ";" ++ Text.trimEnd comment
  := by
  have hmark : (l.margin symbols ++ ";").toList.getLast? = some ';' := by
    rw [String.toList_append]
    apply List.getLast?_concat
  rw [← Text.trimEnd_append hmark rfl]
  simp only [format, h, margin]
  split
  · rfl
  · rfl

/-- A label stands at the left of the columns before the comment. -/
theorem exists_codeText_of_label (h : l.symbol?.bind symbols.name? = some name) :
  ∃ rest, l.codeText symbols = name ++ ":" ++ rest
  := by
  have hlabel : l.labelText symbols = name ++ ":" := by
    rw [labelText, h]
  have hne : (name ++ ":").isEmpty = false := by
    simp
  simp only [codeText, hlabel, hne, Bool.and_false, Bool.false_eq_true, if_false, Text.padEnd,
    String.append_assoc]
  exact ⟨_, rfl⟩

/-- The columns before the comment are kept up to the colon of the label. -/
theorem exists_format_of_label (h : l.symbol?.bind symbols.name? = some name)
    (hkept : l.kind ≠ .comment ∨ l.comment? = none) :
  ∃ rest, l.format symbols = name ++ ":" ++ rest
  := by
  obtain ⟨rest, hcode⟩ := exists_codeText_of_label h
  cases hcomment : l.comment? with
  | none =>
      have hcolon : (name ++ ":").toList.getLast? = some ':' := by
        rw [String.toList_append]
        apply List.getLast?_concat
      rw [format, hcomment, hcode, Text.trimEnd_append hcolon rfl]
      use Text.trimEnd rest
  | some comment =>
      have hkind : l.kind ≠ .comment := by simpa [hcomment] using hkept
      rw [format_of_comment hcomment, margin, hcode]
      simp [hkind, Text.padEnd, String.append_assoc]

/-- What a text shows of the label and of the comment of a line. -/
structure Shows (l : Line) (symbols : SymbolTable) (text : String) : Prop where
  /-- The text ends with the comment. -/
  comment : ∀ comment, l.comment? = some comment →
    ∃ front, text = front ++ ";" ++ Text.trimEnd comment
  /-- The text begins with the label, unless the line is a comment line with a comment. -/
  label : ∀ name, l.symbol?.bind symbols.name? = some name →
    l.kind ≠ .comment ∨ l.comment? = none → ∃ rest, text = name ++ ":" ++ rest
  /-- The text of such a line is the comment alone. -/
  commentLine : ∀ comment, l.kind = .comment → l.comment? = some comment →
    text = ";" ++ Text.trimEnd comment
  /-- It does not begin with a label, unless with one that has a semicolon of its own in front. -/
  not_label : ∀ name, l.kind = .comment → l.comment? ≠ none → name.toList.head? ≠ some ';' →
    ¬ ∃ rest, text = name ++ ":" ++ rest

theorem format_of_commentLine (hkind : l.kind = .comment) (h : l.comment? = some comment) :
  l.format symbols = ";" ++ Text.trimEnd comment
  := by
  rw [format_of_comment h, margin, hkind]
  rfl

/-- A formatted line shows its comment.  It shows its label as well, unless it is a comment line
with a comment. -/
theorem shows_format (l : Line) (symbols : SymbolTable) :
  l.Shows symbols (l.format symbols)
  where
  comment comment h := ⟨l.margin symbols, format_of_comment h⟩
  label _ h hkept := exists_format_of_label h hkept
  commentLine _ hkind h := format_of_commentLine hkind h
  not_label := by
    rintro name hkind hcomment hname ⟨rest, htext⟩
    obtain ⟨comment, hcomment⟩ := Option.ne_none_iff_exists'.mp hcomment
    rw [format_of_commentLine hkind hcomment] at htext
    have hhead := congrArg (·.toList.head?) htext
    simp only [String.toList_append] at hhead
    cases hchars : name.toList with
    | nil => simp [hchars] at hhead
    | cons c cs =>
        apply hname
        simpa [hchars, eq_comm] using hhead

/-- A comment line with a label and a comment. -/
def labeledComment : Line where
  kind := .comment
  symbol? := some 0
  comment? := some "note"

theorem not_forall_exists_format_of_label :
  ¬ ∀ (l : Line) (symbols : SymbolTable) (name : String),
    l.symbol?.bind symbols.name? = some name → ∃ rest, l.format symbols = name ++ ":" ++ rest
  := by
  intro h
  obtain ⟨rest, hrest⟩ :=
    h labeledComment { id := 0, entries := [{ name := "here", state := .single }] } "here" rfl
  rw [format_of_commentLine rfl rfl] at hrest
  have hhead := congrArg (·.toList.head?) hrest
  simp at hhead

end Line

end Pep10
