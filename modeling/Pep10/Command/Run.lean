import Pep10.Command.Arguments
import Pep10.Config
import Pep10.Document.Lowering
import Pep10.Files.Path
import Pep10.Files.System
import Pep10.Image
import Pep10.Listing
import Pep10.Report

/-!
# Running a command

A command reads the configuration, assembles the linked documents and then the input, and writes
the image and the listing or prints the layout.
-/

namespace Pep10.Command

/-- What a run prints, and its exit status. -/
structure Outcome where
  status : UInt32 := 0
  output : String := ""
  error : String := ""

/-- The causes of a failure, the outermost first. -/
abbrev Failure := List String

/-- The text of a failure. -/
def Failure.message (f : Failure) : String :=
  ": ".intercalate f

/-- A computation that can fail. -/
abbrev Run (m : Type → Type) := ExceptT Failure m

variable {m : Type → Type} [Monad m]

/-- Read a file as a text. -/
def readText (fs : FileSystem m) (fault path : String) : Run m String := do
  match (← fs.read path).bind textOfBytes with
  | .ok text => return text
  | .error e => throw [fault ++ " '" ++ path ++ "'", e.message]

/-- Write a file. -/
def writeFile (fs : FileSystem m) (path : String) (bytes : ByteArray) : Run m Unit := do
  match ← fs.write path bytes with
  | .ok () => return
  | .error e => throw ["failed to write '" ++ path ++ "'", e.message]

/-- The configuration at a path, or the default one. -/
def readConfig (fs : FileSystem m) : Option String → Run m Config
  | none => return {}
  | some path => do
    let text ← readText fs "failed to read assembler config" path
    match Config.read? text with
    | some config => return config
    | none => throw ["failed to parse assembler config '" ++ path ++ "'"]

/-- The program in a document, whose symbols get a table with the given identifier. -/
def readUnit (fs : FileSystem m) (id : TableId) (path : String) : Run m ProgramUnit := do
  unless (Path.extension? path).any (·.toLower == "ron") do
    throw ["invalid input extension for '" ++ path ++ "': expected .ron IR document"]
  let text ← readText fs "failed to read" path
  match (Document.parse text).bind (·.lower id) with
  | .ok u => return u
  | .error e => throw ["failed to load '" ++ path ++ "'", e.message]

/-- The causes of an assembly error.  That of an invalid instruction is named once more. -/
def assemblyCauses (e : AssemblyError) : Failure :=
  match e with
  | .invalidInstruction _ cause => [e.message, cause.message]
  | e => [e.message]

/-- An assembled program and its symbols. -/
structure Target where
  assembly : Assembly
  symbols : SymbolTable

/-- Assemble a document. -/
def assembleFile (fs : FileSystem m) (config : Config) (id : TableId) (linked : List SymbolTable)
    (path : String) : Run m Target := do
  let u ← readUnit fs id path
  match config.options linked with
  | .error e => throw [e.message]
  | .ok options =>
    let result := assemble u.program u.symbols options
    match result.outcome with
    | .ok assembly => return { assembly, symbols := result.symbols }
    | .error e => throw (("failed to assemble '" ++ path ++ "'") :: assemblyCauses e)

/-- The symbols of linked documents, each assembled by itself. -/
def assembleLinks (fs : FileSystem m) (config : Config) :
    (id : TableId) → List String → Run m (List SymbolTable)
  | _, [] => return []
  | id, path :: rest => do
    let target ← assembleFile fs config id [] path
    let tables ← assembleLinks fs config (id + 1) rest
    return target.symbols :: tables

/-- Assemble a document with its links. -/
def assembleTarget (fs : FileSystem m) (config : Config) (input : String) (links : List String) :
    Run m Target := do
  let linked ← assembleLinks fs config 0 links
  assembleFile fs config linked.length linked input

/-- The path of the output without its ending: the one asked for, or the input without its
ending. -/
def outputBase (input : String) (output? : Option String) : String :=
  let (path, name?) :=
    match output? with
    | some output => (output, Path.fileName? output)
    | none => (input, Path.stem? input)
  Path.join ((Path.parent? path).getD ".") (name?.getD "out")

/-- The contents of the image file of a program. -/
def imageBytes (target : Target) (kind : OutputKind) : Except ImageError ByteArray := do
  let groups := segments target.assembly.sections
  match kind with
  | .rawBinary => return ⟨(← target.assembly.rawImage groups).toArray⟩
  | .objectText => return (target.assembly.objectText groups).toUTF8

/-- Assemble a document and write its image, and its listing unless the configuration says
not to. -/
def runAssemble (fs : FileSystem m) (input : String) (config? output? : Option String)
    (links : List String) : Run m String := do
  let config ← readConfig fs config?
  let target ← assembleTarget fs config input links
  let base := outputBase input output?
  match imageBytes target config.output.kind with
  | .error e => throw [e.message]
  | .ok image => writeFile fs (base ++ "." ++ config.output.kind.extension) image
  if config.output.listing then
    writeFile fs (base ++ ".lst") (target.assembly.listing target.symbols).toUTF8
  return ""

/-- Assemble a document and print its layout. -/
def runLayout (fs : FileSystem m) (input : String) (config? : Option String)
    (links : List String) : Run m String := do
  let config ← readConfig fs config?
  let target ← assembleTarget fs config input links
  let report := target.assembly.report target.symbols (segments target.assembly.sections)
  return report.toJson.pretty 0 ++ "\n"

/-- What the program says when nothing is asked of it. -/
def banner : String :=
  "pepas, version 0.1.0.\nSection layout and object code backend for Pep/10.\n" ++
    "License: GPL-3.0-or-later.\n"

/-- Do what is asked, and yield what is printed. -/
def runRequest (fs : FileSystem m) : Request → Run m String
  | .introduce => return banner ++ "\n" ++ Topic.helpText .program ++ "\n"
  | .assemble input config? output? links => runAssemble fs input config? output? links
  | .layout input config? links => runLayout fs input config? links

/-- Run the program with some arguments. -/
def run (fs : FileSystem m) (arguments : List String) : m Outcome := do
  match parse arguments with
  | .error (.help topic) => return { output := topic.helpText }
  | .error .version => return { output := "pepas 0.1.0\n" }
  | .error (.fault e) => return { status := 2, error := "error: " ++ e.message ++ "\n" }
  | .ok request =>
    match ← (runRequest fs request).run with
    | .ok output => return { output }
    | .error f => return { status := 1, error := f.message ++ "\n" }

end Pep10.Command
