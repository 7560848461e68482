import Pep10.Command.Run

/-!
# The program

Runs a command on the files of the machine.
-/

namespace Pep10

/-- The system error with a number, which some operations give with its sign turned. -/
def SystemError.ofCode (code : UInt32) (details : String) : SystemError :=
  match (if code < 0x80000000 then code else -code).toNat with
  | 2 => .notFound
  | 20 => .notDirectory
  | 21 => .isDirectory
  | 36 => .nameTooLong
  | number => .other (details.capitalize ++ " (os error " ++ toString number ++ ")")

/-- The system error behind a failure. -/
def SystemError.ofFailure : IO.Error → SystemError
  | .noFileOrDirectory _ code details
  | .inappropriateType _ code details
  | .invalidArgument _ code details
  | .permissionDenied _ code details => .ofCode code details
  | e => .other (toString e)

/-- The files of the machine. -/
def FileSystem.disk : FileSystem IO where
  read path := do
    try return .ok (← IO.FS.readBinFile path)
    catch e => return .error (.ofFailure e)
  write path bytes := do
    try
      IO.FS.writeBinFile path bytes
      return .ok ()
    catch e => return .error (.ofFailure e)

end Pep10

/-- Run the program with the arguments of the command line. -/
def main (arguments : List String) : IO UInt32 := do
  let outcome ← Pep10.Command.run Pep10.FileSystem.disk arguments
  IO.print outcome.output
  IO.eprint outcome.error
  return outcome.status
