/-!
# File systems

What a program needs of the files around it: to read a file and to write one.
-/

namespace Pep10

/-- Why a file cannot be read or written. -/
inductive SystemError where
  | notFound
  | notDirectory
  | isDirectory
  | nameTooLong
  | notText
  | other (text : String)
  deriving DecidableEq

/-- The text of a system error. -/
def SystemError.message : SystemError → String
  | .notFound => "No such file or directory (os error 2)"
  | .notDirectory => "Not a directory (os error 20)"
  | .isDirectory => "Is a directory (os error 21)"
  | .nameTooLong => "File name too long (os error 36)"
  | .notText => "stream did not contain valid UTF-8"
  | .other text => text

/-- The files that a computation in `m` can reach. -/
structure FileSystem (m : Type → Type) where
  /-- The bytes of a file. -/
  read : String → m (Except SystemError ByteArray)
  /-- Give a file new contents. -/
  write : String → ByteArray → m (Except SystemError Unit)

/-- The text that bytes encode. -/
def textOfBytes (bytes : ByteArray) : Except SystemError String :=
  match String.fromUTF8? bytes with
  | some text => .ok text
  | none => .error .notText

end Pep10
