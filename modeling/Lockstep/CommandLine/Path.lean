/-!
# File paths

The parts of a path that the commands look at: the extension tells the format of a program, and the
output stands beside the input under a name made of its stem.
-/

set_option autoImplicit false

namespace Lockstep.CommandLine

/-- The parts of a path between its slashes. -/
def components (path : String) : List String := path.splitOn "/"

/-- The last part of a path. -/
def fileName (path : String) : String := (components path).getLastD ""

/-- A file name split at its last point, unless that is its first character. -/
def splitName (name : String) : List Char × Option (List Char) :=
  let reversed := name.toList.reverse
  let extension := (reversed.takeWhile (· != '.')).reverse
  let stem := ((reversed.dropWhile (· != '.')).drop 1).reverse
  if stem.isEmpty then (name.toList, none) else (stem, some extension)

/-- The last part of a path without its extension. -/
def stem (path : String) : String := String.ofList (splitName (fileName path)).1

/-- The extension of a path in small letters. -/
def extension (path : String) : String :=
  String.ofList (((splitName (fileName path)).2.getD []).map Char.toLower)

/-- Leave out parts at the end of a directory that say nothing, except the first one. -/
def trimDirectory : List String → List String
  | [] => []
  | first :: rest =>
    first :: (rest.reverse.dropWhile fun part => part = "" || part = ".").reverse

/-- A file of the given name beside a path. -/
def beside (path name : String) : String :=
  "/".intercalate (trimDirectory (components path).dropLast ++ [name])

end Lockstep.CommandLine
