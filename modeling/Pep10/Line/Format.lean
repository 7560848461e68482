import Pep10.Line.Basic
import Pep10.Symbol.Table
import Pep10.Text.Blank

/-!
# Formatted lines

A line in source columns: label, mnemonic, operand and comment.
-/

namespace Pep10

/-- The directive that lays down data. -/
def DataKind.name : DataKind → String
  | .ascii => ".ASCII"
  | .byte => ".BYTE"
  | .word => ".WORD"

/-- The directive of an annotation. -/
def AnnotationKind.name : AnnotationKind → String
  | .exported => ".EXPORT"
  | .imported => ".IMPORT"
  | .input => ".INPUT"
  | .output => ".OUTPUT"
  | .systemCall => ".SCALL"

/-- The directive of an origin. -/
def OriginKind.name : OriginKind → String
  | .org => ".ORG"
  | .burn => ".BURN"

/-- The mnemonic column of a line. -/
def LineKind.mnemonicText : LineKind → String
  | .blank => ""
  | .comment => ""
  | .monadic m => m.name
  | .dyadic m _ _ => m.name
  | .align _ => ".ALIGN"
  | .data kind _ => kind.name
  | .block _ => ".BLOCK"
  | .equate _ => ".EQUATE"
  | .opening _ => ".SECTION"
  | .annotate kind _ => kind.name
  | .origin kind _ => kind.name

/-- The operand column of a line. -/
def LineKind.operandText : LineKind → String
  | .blank => ""
  | .comment => ""
  | .monadic _ => ""
  | .dyadic _ mode a => a.display ++ "," ++ (mode.map (·.name)).getD ""
  | .align a => a.display
  | .data _ a => a.display
  | .block a => a.display
  | .equate a => a.display
  | .opening h => "\"" ++ h.name ++ "\", \"" ++ h.flags.display ++ "\""
  | .annotate _ a => a.display
  | .origin _ a => a.display

namespace Line

/-- The width of the label column. -/
def labelWidth : Nat := 9

/-- The width of the mnemonic column. -/
def mnemonicWidth : Nat := 7

/-- The column where a comment starts, at the least. -/
def commentColumn : Nat := 34

/-- The label column of a line: the name of the symbol it declares. -/
def labelText (l : Line) (symbols : SymbolTable) : String :=
  match l.symbol?.bind symbols.name? with
  | none => ""
  | some name => name ++ ":"

/-- The columns before the comment. -/
def codeText (l : Line) (symbols : SymbolTable) : String :=
  let label := l.labelText symbols
  let mnemonic := l.kind.mnemonicText
  if mnemonic.isEmpty && label.isEmpty then ""
  else
    Text.padEnd labelWidth label ++ Text.padEnd mnemonicWidth mnemonic ++ " " ++
      l.kind.operandText

/-- The line in source columns.  A comment alone starts at the left margin, and so does the
comment of a comment line. -/
def format (l : Line) (symbols : SymbolTable) : String :=
  let code := l.codeText symbols
  Text.trimEnd <|
    match l.comment? with
    | none => code
    | some comment =>
      if l.kind = .comment || code.isEmpty then ";" ++ comment
      else Text.padEnd commentColumn code ++ ";" ++ comment

end Line

end Pep10
