/-!
# Command-line arguments

The arguments are taken from left to right.  An option has its value in the same argument or in
the next one.  After `--` every argument is a file.  The first fault, or the first request for
help, ends the reading.
-/

namespace Pep10.Command

/-- The options that take a value. -/
inductive Setting where
  | config
  | output
  | link
  | logLevel
  deriving DecidableEq

namespace Setting

/-- All settings. -/
def all : List Setting :=
  [.config, .output, .link, .logLevel]

/-- The long name of a setting. -/
def longName : Setting → String
  | .config => "config"
  | .output => "output"
  | .link => "link"
  | .logLevel => "log-level"

/-- The letter of a setting. -/
def letter? : Setting → Option Char
  | .config => some 'T'
  | .output => some 'o'
  | .link => some 'l'
  | .logLevel => none

/-- Can a setting be given more than once? -/
def isRepeatable : Setting → Bool
  | .link => true
  | _ => false

end Setting

/-- What the arguments are about: the program as a whole, or one of its commands. -/
inductive Topic where
  | program
  | assemble
  | layout
  | help
  deriving DecidableEq

namespace Topic

/-- The command with a name. -/
def ofName? : String → Option Topic
  | "assemble" => some .assemble
  | "layout" => some .layout
  | "help" => some .help
  | _ => none

/-- The settings of a command. -/
def settings : Topic → List Setting
  | .program => [.logLevel]
  | .assemble => [.config, .output, .link, .logLevel]
  | .layout => [.config, .link, .logLevel]
  | .help => []

/-- What a command does. -/
def about : Topic → String
  | .program => "Section layout and object code backend for the Pep/10 assembler"
  | .assemble => "Assemble an IR document into an object image and listing"
  | .layout => "Print the section, segment and address layout as JSON"
  | .help => "Print this message or the help of the given subcommand(s)"

/-- How a command is called. -/
def usage : Topic → String
  | .program => "pepas [--log-level LEVEL] [INPUT | COMMAND]"
  | .assemble => "pepas assemble [-T CONFIG] [-o OUT_BASE] [-l INPUT]... INPUT"
  | .layout => "pepas layout [-T CONFIG] [-l INPUT]... INPUT"
  | .help => "pepas help [COMMAND]"

/-- The help on a command. -/
def helpText (t : Topic) : String :=
  t.about ++ "\n\nUsage: " ++ t.usage ++ "\n"

end Topic

/-- Why arguments are not understood. -/
inductive UsageError where
  | unknownOption (text : String)
  | unknownCommand (name : String)
  | missingValue (setting : Setting)
  | invalidValue (setting : Setting) (value : String)
  | unexpectedValue (name : String)
  | repeated (setting : Setting)
  | emptyInput
  | missingInput
  | extraInput (text : String)
  deriving DecidableEq

/-- The text of a usage error. -/
def UsageError.message : UsageError → String
  | .unknownOption text => "unexpected argument '" ++ text ++ "' found"
  | .unknownCommand name => "unrecognized subcommand '" ++ name ++ "'"
  | .missingValue s => "a value is required for '--" ++ s.longName ++ "' but none was supplied"
  | .invalidValue s value => "invalid value '" ++ value ++ "' for '--" ++ s.longName ++ "'"
  | .unexpectedValue name => "unexpected value for '--" ++ name ++ "' found"
  | .repeated s => "the argument '--" ++ s.longName ++ "' cannot be used multiple times"
  | .emptyInput => "a value is required for '[INPUT]' but none was supplied"
  | .missingInput => "the required argument '<INPUT>' was not provided"
  | .extraInput text => "unexpected argument '" ++ text ++ "' found"

/-- Why the reading of arguments ends early. -/
inductive Stop where
  | help (topic : Topic)
  | version
  | fault (error : UsageError)
  deriving DecidableEq

/-- The input and the settings of a command. -/
structure Given where
  input? : Option String := none
  values : List (Setting × String) := []
  deriving DecidableEq

/-- The value of a setting. -/
def Given.value? (g : Given) (s : Setting) : Option String :=
  (g.values.find? (·.1 == s)).map (·.2)

/-- All values of a setting, in order. -/
def Given.valuesOf (g : Given) (s : Setting) : List String :=
  g.values.filterMap fun (t, value) => if t = s then some value else none

/-- An argument that has been taken but not checked yet. -/
inductive Pending where
  | nothing
  /-- An option that waits for its value. -/
  | setting (setting : Setting)
  | value (setting : Setting) (value : String)
  | input (text : String)
  deriving DecidableEq

/-- The digits of a number, after an optional sign. -/
def unsigned? (text : String) : Option Nat :=
  let digits :=
    match text.toList with
    | '+' :: digits => digits
    | digits => digits
  if digits.isEmpty then none
  else digits.foldlM (fun n c => if c.isDigit then some (10 * n + (c.toNat - 48)) else none) 0

/-- Is a text a log level?  Levels are names in either case, or numbers from one to five. -/
def isLogLevel (text : String) : Bool :=
  match unsigned? text with
  | some n => 1 ≤ n && n ≤ 5
  | none => ["error", "warn", "info", "debug", "trace"].contains text.toLower

/-- Take note of the value of a setting. -/
def Given.record (g : Given) (s : Setting) (value : String) : Except Stop Given :=
  let valid := if s = .logLevel then isLogLevel value else value ≠ ""
  if !valid then .error (.fault (.invalidValue s value))
  else if !s.isRepeatable && (g.value? s).isSome then .error (.fault (.repeated s))
  else .ok { g with values := g.values ++ [(s, value)] }

/-- Check an argument that has been taken. -/
def Given.settle (g : Given) : Pending → Except Stop Given
  | .nothing => .ok g
  | .setting s => .error (.fault (.missingValue s))
  | .value s value => g.record s value
  | .input text =>
    if text = "" then .error (.fault .emptyInput) else .ok { g with input? := some text }

/-- The arguments of a command so far. -/
structure Taken where
  given : Given := {}
  pending : Pending := .nothing
  /-- Has an input been taken? -/
  hasInput : Bool := false
  deriving DecidableEq

namespace Taken

/-- Check what has been taken. -/
def finish (t : Taken) : Except Stop Given :=
  t.given.settle t.pending

/-- The same, with nothing left to check. -/
def settled (t : Taken) : Except Stop Taken := do
  return { t with given := ← t.finish, pending := .nothing }

/-- Take an input. -/
def takeInput (t : Taken) (text : String) : Except Stop Taken :=
  if t.hasInput then .error (.fault (.extraInput text))
  else do return { ← t.settled with pending := .input text, hasInput := true }

/-- Take an option, with the value that stands in the same argument, if there is one. -/
def takeSetting (t : Taken) (s : Setting) : Option String → Except Stop Taken
  | none => do return { ← t.settled with pending := .setting s }
  | some value => do
    let t ← t.settled
    return { t with given := ← t.given.record s value }

/-- Take an option by its long name. -/
def takeLong (topic : Topic) (t : Taken) (name : String) (value? : Option String) :
    Except Stop Taken :=
  if name = "help" || (topic = .program && name = "version") then
    if value?.isSome then .error (.fault (.unexpectedValue name))
    else do
      let _ ← t.settled
      throw (if name = "help" then .help topic else .version)
  else
    match topic.settings.find? (·.longName == name) with
    | some s => t.takeSetting s value?
    | none => .error (.fault (.unknownOption ("--" ++ name)))

/-- Take an option by its letter.  What follows the letter is its value. -/
def takeShort (topic : Topic) (t : Taken) : List Char → Except Stop Taken
  | [] => .ok t
  | c :: rest =>
    if c = 'h' || (topic = .program && c = 'V') then do
      let _ ← t.settled
      throw (if c = 'h' then .help topic else .version)
    else
      match topic.settings.find? (·.letter? == some c) with
      | none => .error (.fault (.unknownOption (String.ofList ['-', c])))
      | some s =>
        t.takeSetting s <|
          match rest with
          | [] => none
          | '=' :: value => some (String.ofList value)
          | value => some (String.ofList value)

/-- Take an argument before any `--`. -/
def take (topic : Topic) (t : Taken) (argument : String) : Except Stop Taken :=
  match argument.toList with
  | '-' :: '-' :: body =>
    match body.span (· ≠ '=') with
    | (name, '=' :: value) => t.takeLong topic (String.ofList name) (some (String.ofList value))
    | (name, _) => t.takeLong topic (String.ofList name) none
  | '-' :: c :: rest => t.takeShort topic (c :: rest)
  | _ =>
    match t.pending with
    | .setting s => .ok { t with pending := .value s argument }
    | _ => t.takeInput argument

/-- Does the last argument wait for a value? -/
def awaitsValue (t : Taken) : Bool :=
  match t.pending with
  | .setting _ => true
  | _ => false

end Taken

/-- Take the arguments of a command. -/
def takeAll (topic : Topic) (t : Taken) : List String → Except Stop Taken
  | [] => .ok t
  | "--" :: rest => rest.foldlM Taken.takeInput t
  | argument :: rest => do takeAll topic (← t.take topic argument) rest

/-- Take the arguments before the name of a command, and find the command and its arguments. -/
def takeProgram (t : Taken) :
    List String → Except Stop (Taken × Option (Topic × List String))
  | [] => .ok (t, none)
  | "--" :: rest => do return (← rest.foldlM Taken.takeInput t, none)
  | argument :: rest =>
    match (if t.awaitsValue then none else Topic.ofName? argument) with
    | some topic => .ok (t, some (topic, rest))
    | none => do takeProgram (← t.take .program argument) rest

/-- What is asked of the program. -/
inductive Request where
  /-- To say what it is. -/
  | introduce
  | assemble (input : String) (config? output? : Option String) (links : List String)
  | layout (input : String) (config? : Option String) (links : List String)
  deriving DecidableEq

/-- The command that help is asked for. -/
def helpTopic : List String → Except Stop Topic
  | [] => .ok .program
  | [name] =>
    match Topic.ofName? name with
    | some topic => .ok topic
    | none => .error (.fault (.unknownCommand name))
  | _ :: name :: _ => .error (.fault (.unknownCommand name))

/-- The arguments of a command that needs an input. -/
def takeCommand (topic : Topic) (arguments : List String) : Except Stop (String × Given) := do
  let given ← (← takeAll topic {} arguments).finish
  match given.input? with
  | some input => return (input, given)
  | none => throw (.fault .missingInput)

/-- Read the arguments of the program. -/
def parse (arguments : List String) : Except Stop Request := do
  let (t, command?) ← takeProgram {} arguments
  match command? with
  | none =>
    match (← t.finish).input? with
    | some input => return .assemble input none none []
    | none => return .introduce
  | some (.assemble, rest) =>
    let (input, given) ← takeCommand .assemble rest
    let _ ← t.finish
    return .assemble input (given.value? .config) (given.value? .output) (given.valuesOf .link)
  | some (.layout, rest) =>
    let (input, given) ← takeCommand .layout rest
    let _ ← t.finish
    return .layout input (given.value? .config) (given.valuesOf .link)
  | some (_, rest) => throw (.help (← helpTopic rest))

end Pep10.Command
