import Pep10.Listing
import Pep10.Proofs.LoweredDocument
import Pep10.Proofs.Quotation

/-!
# Texts on one line

A formatted line is on one line of a text if its names and its comment are.  Literals need no such
condition, since a newline in a literal is escaped.  The header of a section is on one line if the
name of the section is.
-/

namespace Pep10

namespace Text

/-- A text without a newline. -/
def OneLine (text : String) : Prop :=
  '\n' ∉ text.toList

instance (text : String) : Decidable (OneLine text) :=
  inferInstanceAs (Decidable (¬ _))

@[simp]
theorem oneLine_append {s t : String} :
  OneLine (s ++ t) ↔ OneLine s ∧ OneLine t
  := by
  simp [OneLine, not_or]

theorem oneLine_ofList {cs : List Char} :
  OneLine (String.ofList cs) ↔ '\n' ∉ cs
  := by
  rw [OneLine, String.toList_ofList]

@[simp]
theorem oneLine_padEnd {width : Nat} {text : String} :
  OneLine (padEnd width text) ↔ OneLine text
  := by
  rw [padEnd, oneLine_append, oneLine_ofList]
  simp

theorem OneLine.trimEnd {text : String} (h : OneLine text) :
  OneLine (trimEnd text)
  := by
  rw [Text.trimEnd, oneLine_ofList, List.mem_reverse]
  intro hmem
  apply h
  apply List.mem_reverse.mp ((List.dropWhile_sublist _).subset hmem)

/-! ### Numbers -/

theorem newline_notMem_hexDigits (width n : Nat) :
  '\n' ∉ hexDigits width n
  := by
  intro hmem
  cases (forall_mem_hexDigits width n _ hmem).1

@[simp]
theorem oneLine_hex (width n : Nat) :
  OneLine (hex width n)
  := by
  rw [hex, oneLine_ofList]
  apply newline_notMem_hexDigits

@[simp]
theorem oneLine_hexBytes (bytes : List UInt8) :
  OneLine (hexBytes bytes)
  := by
  rw [hexBytes, oneLine_ofList, List.mem_flatMap]
  rintro ⟨byte, -, hmem⟩
  apply newline_notMem_hexDigits _ _ hmem

@[simp]
theorem oneLine_repr (n : Nat) :
  OneLine n.repr
  := by
  rw [Nat.repr, oneLine_ofList]
  intro hmem
  cases Nat.isDigit_of_mem_toDigits (by decide) (by decide) hmem

theorem oneLine_toString_int (n : Int) :
  OneLine (toString n)
  := by
  cases n with
  | ofNat n => apply oneLine_repr
  | negSucc n =>
      have hminus : OneLine "-" := by decide
      apply oneLine_append.mpr ⟨hminus, oneLine_repr _⟩

/-! ### Quotations -/

/-- A newline cannot be printed, so there is none in a quotation. -/
theorem IsQuotation.oneLine {mark : Char} {text : String} (h : IsQuotation mark text) :
  OneLine text
  := by
  have hnewline : ¬ IsPrintable '\n' := by decide
  intro hmem
  apply hnewline (h.isPrintable _ hmem)

end Text

open Text (OneLine)

/-- The symbol that an operand is. -/
def Argument.name? : Argument → Option String
  | .literal _ => none
  | .symbolic name _ => some name

/-- The operand and the comment of a line are on one line. -/
def Line.OneLined (l : Line) : Prop :=
  (∀ name ∈ l.kind.argument?.bind Argument.name?, OneLine name)
    ∧ ∀ comment ∈ l.comment?, OneLine comment

instance (l : Line) : Decidable l.OneLined :=
  inferInstanceAs (Decidable (_ ∧ _))

/-! ### The parts of a line -/

theorem Literal.oneLine_display (l : Literal) :
  OneLine l.display
  := by
  cases l with
  | decimal value => apply Text.oneLine_toString_int
  | hexadecimal value =>
      have hmark : OneLine "0x" := by decide
      apply Text.oneLine_append.mpr ⟨hmark, Text.oneLine_hex _ _⟩
  | character code => apply (isQuotation_display rfl).oneLine
  | text bytes => apply (isQuotation_display rfl).oneLine

theorem Argument.oneLine_display {a : Argument} (h : ∀ name ∈ a.name?, OneLine name) :
  OneLine a.display
  := by
  cases a with
  | literal l => apply l.oneLine_display
  | symbolic name r => apply h name rfl

theorem Flags.oneLine_display (f : Flags) :
  OneLine f.display
  := by
  obtain ⟨readable, writable, executable, zeroed⟩ := f
  revert readable writable executable zeroed
  decide

theorem Mnemonic.oneLine_name (m : Mnemonic) :
  OneLine m.name
  := by
  cases m <;> decide

theorem AddressingMode.oneLine_name (mode : AddressingMode) :
  OneLine mode.name
  := by
  cases mode <;> decide

theorem DataKind.oneLine_name (kind : DataKind) :
  OneLine kind.name
  := by
  cases kind <;> decide

theorem AnnotationKind.oneLine_name (kind : AnnotationKind) :
  OneLine kind.name
  := by
  cases kind <;> decide

theorem OriginKind.oneLine_name (kind : OriginKind) :
  OneLine kind.name
  := by
  cases kind <;> decide

theorem LineKind.oneLine_mnemonicText (kind : LineKind) :
  OneLine kind.mnemonicText
  := by
  cases kind with
  | monadic m => apply m.oneLine_name
  | dyadic m mode a => apply m.oneLine_name
  | data kind a => apply kind.oneLine_name
  | annotate kind a => apply kind.oneLine_name
  | origin kind a => apply kind.oneLine_name
  | blank => decide
  | comment => decide
  | align a =>
      show OneLine ".ALIGN"
      decide
  | block a =>
      show OneLine ".BLOCK"
      decide
  | equate a =>
      show OneLine ".EQUATE"
      decide
  | opening h =>
      show OneLine ".SECTION"
      decide

theorem LineKind.oneLine_operandText {kind : LineKind}
    (hname : ∀ name ∈ kind.argument?.bind Argument.name?, OneLine name)
    (hheading : ∀ h, kind = .opening h → OneLine h.name) :
  OneLine kind.operandText
  := by
  have hdisplay : ∀ a, kind.argument? = some a → OneLine a.display := by
    intro a ha
    rw [ha, Option.bind_some] at hname
    apply Argument.oneLine_display hname
  cases kind with
  | dyadic m mode a =>
      have hmode : OneLine ((mode.map (·.name)).getD "") := by
        cases mode with
        | none => decide
        | some mode => apply mode.oneLine_name
      have hcomma : OneLine "," := by decide
      simp [operandText, hdisplay a rfl, hmode, hcomma]
  | opening h =>
      have hquote : OneLine "\"" := by decide
      have hbetween : OneLine "\", \"" := by decide
      simp [operandText, hheading h rfl, h.flags.oneLine_display, hquote, hbetween]
  | blank => decide
  | comment => decide
  | monadic m =>
      show OneLine ""
      decide
  | align a => apply hdisplay a rfl
  | data kind a => apply hdisplay a rfl
  | block a => apply hdisplay a rfl
  | equate a => apply hdisplay a rfl
  | annotate kind a => apply hdisplay a rfl
  | origin kind a => apply hdisplay a rfl

namespace Line

variable {l : Line} {symbols : SymbolTable}

theorem oneLine_labelText (l : Line) (hsymbols : ∀ e ∈ symbols.entries, OneLine e.name) :
  OneLine (l.labelText symbols)
  := by
  rw [labelText]
  split
  · decide
  · next name hname =>
    obtain ⟨i, -, hi⟩ := Option.bind_eq_some_iff.mp hname
    obtain ⟨e, he, rfl⟩ := Option.map_eq_some_iff.mp hi
    have hcolon : OneLine ":" := by decide
    apply Text.oneLine_append.mpr ⟨hsymbols e (List.mem_of_getElem? he), hcolon⟩

/-- A formatted line is on one line. -/
theorem oneLine_format (hl : l.OneLined) (hsymbols : ∀ e ∈ symbols.entries, OneLine e.name)
    (hheading : ∀ h, l.kind = .opening h → OneLine h.name) :
  OneLine (l.format symbols)
  := by
  have hcode : OneLine (l.codeText symbols) := by
    have hspace : OneLine " " := by decide
    rw [codeText]
    split
    · decide
    · simp [l.oneLine_labelText hsymbols, hspace, l.kind.oneLine_mnemonicText,
        LineKind.oneLine_operandText hl.1 hheading]
  have hmark : OneLine ";" := by decide
  apply Text.OneLine.trimEnd
  split
  · apply hcode
  · next comment heq =>
    have hcomment := hl.2 comment heq
    split
    · simp [hmark, hcomment]
    · simp [hmark, hcomment, hcode]

end Line

/-- The header of a section is on one line. -/
theorem Assembly.oneLine_sectionHeader {s : Section} (h : OneLine s.name) :
  OneLine (sectionHeader s)
  := by
  have hsection : OneLine "; section " := by decide
  have hopen : OneLine " (" := by decide
  have hbase : OneLine ") base 0x" := by decide
  have hsize : OneLine (toString " size ") := by decide
  simp [sectionHeader, h, hsection, hopen, hbase, hsize, s.flags.oneLine_display]

end Pep10
