import Lockstep.CommandLine.Commands

/-!
# The program

The commands on the host that the program runs on.
-/

set_option autoImplicit false

namespace Lockstep.CommandLine

/-- The number of a failure of the host, which some operations give as a negative word. -/
def failureNumber (code : UInt32) : UInt32 := if code < 0x80000000 then code else 0 - code

/-- The file error of a failure of the host. -/
def fileError : IO.Error → FileError
  | .noFileOrDirectory _ _ _ => .notFound
  | .inappropriateType _ code _ =>
    if failureNumber code = 20 then .notDirectory else .isDirectory
  | .invalidArgument name code details =>
    if failureNumber code = 36 then .nameTooLong
    else .other (toString (IO.Error.invalidArgument name code details))
  | .permissionDenied _ code _ =>
    .other ("Permission denied (os error " ++ toString (failureNumber code).toNat ++ ")")
  | e => .other (toString e)

/-- The text of a file of the host. -/
def readHostFile (path : String) : IO (Except FileError String) := do
  try
    let content ← IO.FS.readBinFile path
    match String.fromUTF8? content with
    | some text => return .ok text
    | none => return .error .notText
  catch e => return .error (fileError e)

/-- Whether there is something at a path of the host. -/
def existsOnHost (path : String) : IO Bool := do
  match ← readHostFile path with
  | .error .notFound | .error .notDirectory | .error .nameTooLong => return false
  | _ => return true

/-- Write a file of the host. -/
def writeHostFile (path text : String) : IO (Except FileError Unit) := do
  try
    IO.FS.writeFile path text
    return .ok ()
  catch e => return .error (fileError e)

/-- The host that the program runs on. -/
def systemHost : Host IO where
  pathExists := existsOnHost
  readText := readHostFile
  writeText := writeHostFile
  printLine := IO.println
  reportLine := IO.eprintln

end Lockstep.CommandLine

/-- Run the program on its arguments. -/
def main (args : List String) : IO UInt32 := do
  let configured ← IO.getEnv "QLANE_CONFIG"
  Lockstep.CommandLine.run Lockstep.CommandLine.systemHost configured args
