import Lockstep.CommandLine.Commands

/-!
# Workspaces

A host that is a value: a directory tree of files and what was printed so far. The program run in a
workspace is a function from workspaces to workspaces.
-/

set_option autoImplicit false

namespace Lockstep.CommandLine

/-- A directory tree and the two streams. A file is named by the parts of its path, and a directory
is there when a file is in it or below it. -/
structure Workspace where
  files : List (List String × ByteArray)
  output : String
  messages : String

/-- What a path leads to. -/
inductive Target where
  | file (name : List String) (content : ByteArray)
  | directory (name : List String)
  /-- A free name in a directory. -/
  | vacant (name : List String)
  /-- A directory that the workspace lies in. -/
  | outside
  /-- A name in such a directory; nothing stands there. -/
  | elsewhere
  | fault (e : FileError)

/-- How many bytes a name may have. -/
def nameLimit : Nat := 255

/-- How many bytes a path may have. -/
def pathLimit : Nat := 4095

/-- Whether a path asks for a directory: it ends in a slash. -/
def asksDirectory (path : String) : Bool := (components path).getLast? == some ""

/-- The parts of a path, slashes at its end left aside. -/
def steps (path : String) : List String := ((components path).reverse.dropWhile (· == "")).reverse

namespace Workspace

/-- What stands under a name. -/
def entry (w : Workspace) (name : List String) : Target :=
  match w.files.find? (·.1 = name) with
  | some (_, content) => .file name content
  | none => if w.files.any fun f => name.isPrefixOf f.1 then .directory name else .vacant name

/-- Go on from what was reached through one part of a path. -/
def step (w : Workspace) : Target → String → Target
  | .directory here, part =>
    if part = "" ∨ part = "." then .directory here
    else if part = ".." then if here = [] then .outside else .directory here.dropLast
    else if nameLimit < part.utf8ByteSize then .fault .nameTooLong
    else w.entry (here ++ [part])
  | .outside, part =>
    if part = "" ∨ part = "." ∨ part = ".." then .outside
    else if nameLimit < part.utf8ByteSize then .fault .nameTooLong
    else .elsewhere
  | .file _ _, _ => .fault .notDirectory
  | .vacant _, _ | .elsewhere, _ => .fault .notFound
  | .fault e, _ => .fault e

/-- Where the given parts of a path lead. A path that starts with a slash leads outside. -/
def follow (w : Workspace) (path : String) (parts : List String) : Target :=
  if path = "" then .fault .notFound
  else if pathLimit < path.utf8ByteSize then .fault .nameTooLong
  else
    let start : Target := if (components path).head? = some "" then .outside else .directory []
    parts.foldl w.step start

/-- What a path leads to. -/
def target (w : Workspace) (path : String) : Target := w.follow path (steps path)

/-- The same workspace with a file written anew. -/
def put (w : Workspace) (name : List String) (content : ByteArray) : Workspace :=
  { w with files := w.files.filter (·.1 ≠ name) ++ [(name, content)] }

/-- The text of a file. -/
def readText (w : Workspace) (path : String) : Except FileError String :=
  match w.target path with
  | .file _ content =>
    if asksDirectory path then .error .notDirectory
    else
      match String.fromUTF8? content with
      | some text => .ok text
      | none => .error .notText
  | .directory _ | .outside => .error .isDirectory
  | .vacant _ | .elsewhere => .error .notFound
  | .fault e => .error e

/-- Whether there is something at a path. -/
def pathExists (w : Workspace) (path : String) : Bool :=
  match w.target path with
  | .file _ _ => !asksDirectory path
  | .directory _ | .outside => true
  | .vacant _ | .elsewhere | .fault _ => false

/-- Why a file cannot be written under a path that asks for a directory: only what comes before its
last part is looked at. -/
def slashError (w : Workspace) (path : String) : FileError :=
  match w.follow path (steps path).dropLast with
  | .directory _ | .outside => .isDirectory
  | .file _ _ => .notDirectory
  | .vacant _ | .elsewhere => .notFound
  | .fault e => e

/-- Write a file. One outside leaves the workspace as it is. -/
def writeText (w : Workspace) (path text : String) : Except FileError Unit × Workspace :=
  if asksDirectory path then (.error (w.slashError path), w)
  else
    match w.target path with
    | .file name _ | .vacant name => (.ok (), w.put name text.toUTF8)
    | .elsewhere => (.ok (), w)
    | .directory _ | .outside => (.error .isDirectory, w)
    | .fault e => (.error e, w)

/-- A workspace is a host. -/
def host : Host (StateM Workspace) where
  pathExists path := fun w => (w.pathExists path, w)
  readText path := fun w => (w.readText path, w)
  writeText path text := fun w => w.writeText path text
  printLine line := fun w => ((), { w with output := w.output ++ line ++ "\n" })
  reportLine line := fun w => ((), { w with messages := w.messages ++ line ++ "\n" })

/-- The parts of a path that name something. -/
def nameOf (path : String) : List String :=
  (components path).filter fun part => part ≠ "" ∧ part ≠ "."

/-- A workspace with the given files, and nothing printed. -/
def ofFiles (files : List (String × ByteArray)) : Workspace where
  files := files.map fun (path, content) => (nameOf path, content)
  output := ""
  messages := ""

/-- The files of a workspace that an earlier one does not have with the same content. -/
def changedSince (w before : Workspace) : List (String × ByteArray) :=
  let fresh := w.files.filter fun f => !before.files.contains f
  fresh.map fun (name, content) => ("/".intercalate name, content)

/-- Run the program in a workspace. -/
def run (w : Workspace) (configured : Option String) (args : List String) : UInt32 × Workspace :=
  CommandLine.run host configured args w

end Workspace

end Lockstep.CommandLine
