/-!
# Reading structured text

The notation of documents and configurations has words, numbers, quoted texts and brackets, with
blanks and comments between them.  A reader consumes a prefix of a text or fails; this module
holds the readers of blanks, fixed tokens and words.
-/

namespace Pep10.Ron

/-- The extensions a text asks for in its attributes. -/
structure Extensions where
  /-- An optional value may stand without being marked as present. -/
  implicitSome : Bool := false

/-- Consumes characters from the front of a text and yields a value, or fails. -/
abbrev Reader := ReaderT Extensions (StateT (List Char) Option)

/-- The text that is left. -/
def remaining : Reader (List Char) :=
  getThe (List Char)

/-- Continue with a text. -/
def continueWith (rest : List Char) : Reader Unit :=
  set rest

/-- What is being skipped: blanks, a comment up to the end of its line, or a comment in
brackets, inside of `depth` others. -/
inductive Skipped where
  | blanks
  | line
  | bracketed (depth : Nat)

/-- The blanks between tokens. -/
def isSpace (c : Char) : Bool :=
  c = ' ' || c = '\t' || c = '\r' || c = '\n'

/-- The text after blanks and comments.  A comment in brackets has to end, and a lone slash
starts no comment. -/
def skip : Skipped → List Char → Option (List Char)
  | .blanks, [] => some []
  | .blanks, '/' :: '/' :: rest => skip .line rest
  | .blanks, '/' :: '*' :: rest => skip (.bracketed 0) rest
  | .blanks, '/' :: _ => none
  | .blanks, c :: rest => if isSpace c then skip .blanks rest else some (c :: rest)
  | .line, [] => some []
  | .line, c :: rest => if c = '\n' then skip .blanks rest else skip .line rest
  | .bracketed _, [] => none
  | .bracketed depth, '/' :: '*' :: rest => skip (.bracketed (depth + 1)) rest
  | .bracketed 0, '*' :: '/' :: rest => skip .blanks rest
  | .bracketed (depth + 1), '*' :: '/' :: rest => skip (.bracketed depth) rest
  | .bracketed depth, _ :: rest => skip (.bracketed depth) rest

/-- Skip blanks and comments. -/
def blanks : Reader Unit := do
  match skip .blanks (← remaining) with
  | some rest => continueWith rest
  | none => failure

/-- Consume a token if it comes next. -/
def accept (token : String) : Reader Bool := do
  match token.toList.isPrefixOf? (← remaining) with
  | some rest => continueWith rest; return true
  | none => return false

/-- Consume a token. -/
def expect (token : String) : Reader Unit := do
  unless ← accept token do failure

/-- Consume a comma with the blanks around it, if it comes next. -/
def comma : Reader Bool := do
  blanks
  let found ← accept ","
  if found then blanks
  return found

/-- The characters a word starts with. -/
def isWordStart (c : Char) : Bool :=
  c.isAlpha || c = '_'

/-- The characters of a word. -/
def isWordChar (c : Char) : Bool :=
  c.isAlphanum || c = '_'

/-- The characters of a word after the mark of a raw word. -/
def isRawWordChar (c : Char) : Bool :=
  isWordChar c || c = '.' || c = '+' || c = '-'

/-- A word, which may be marked as raw. -/
def word : Reader String := do
  match ← remaining with
  | 'r' :: '#' :: rest =>
    let (found, rest) := rest.span isRawWordChar
    if found.isEmpty then failure
    continueWith rest
    return String.ofList found
  | rest =>
    unless rest.head?.any isWordStart do failure
    let (found, rest) := rest.span isWordChar
    continueWith rest
    return String.ofList found

end Pep10.Ron
