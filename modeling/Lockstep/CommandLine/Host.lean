/-!
# Hosts

What the commands need of the system that they run on: files, and two streams of lines. The commands
are the same on every host.
-/

set_option autoImplicit false

namespace Lockstep.CommandLine

/-- Why a file cannot be read or written. -/
inductive FileError where
  | notFound
  | notDirectory
  | isDirectory
  | nameTooLong
  | notText
  | other (reason : String)
deriving DecidableEq

/-- The text of an error. -/
def FileError.message : FileError → String
  | notFound => "No such file or directory (os error 2)"
  | notDirectory => "Not a directory (os error 20)"
  | isDirectory => "Is a directory (os error 21)"
  | nameTooLong => "File name too long (os error 36)"
  | notText => "stream did not contain valid UTF-8"
  | other reason => reason

/-- The operations of a host. -/
structure Host (m : Type → Type) where
  /-- Whether there is something at a path. -/
  pathExists : String → m Bool
  /-- The text of a file. -/
  readText : String → m (Except FileError String)
  /-- Write a file anew. -/
  writeText : String → String → m (Except FileError Unit)
  /-- Print a line of output. -/
  printLine : String → m Unit
  /-- Print a line of messages. -/
  reportLine : String → m Unit

end Lockstep.CommandLine
