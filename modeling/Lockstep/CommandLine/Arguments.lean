/-!
# Command line arguments

Arguments are read from left to right: first options of the program as a whole, then the name of a
command, then the options of that command. An option is given at most once and takes its value from
the rest of its own argument or from the next one; `-v` may be given anywhere and any number of
times. Short options that take no value may be put together.
-/

set_option autoImplicit false

namespace Lockstep.CommandLine

/-- What the program is asked to do. -/
inductive Command where
  /-- Compile a program to schedules. -/
  | compile (input : String) (output config : Option String) (level : Option UInt8)
      (noInitialWait : Bool)
  /-- Align the lanes of a schedule. -/
  | resolve (input : String) (output : Option String) (level : UInt8)
  /-- Say what the program is made of. -/
  | version
  /-- Say the version number only. -/
  | versionNumber
deriving DecidableEq

/-- The options that were given to a command. -/
structure Given where
  input : Option String := none
  output : Option String := none
  config : Option String := none
  level : Option UInt8 := none
  noInitialWait : Bool := false
deriving DecidableEq

/-- The options that a command may have. -/
inductive Switch where
  | input
  | output
  | config
  | level
  | noInitialWait
  | verbose
deriving DecidableEq

/-- The names of commands. -/
inductive CommandName where
  | compile
  | resolve
  | version
deriving DecidableEq

namespace CommandName

/-- The command with a name. -/
def ofString? : String → Option CommandName
  | "compile" => some compile
  | "resolve" => some resolve
  | "version" => some version
  | _ => none

/-- Whether a command has an option. -/
def accepts : CommandName → Switch → Bool
  | _, .verbose => true
  | compile, _ => true
  | resolve, .input | resolve, .output | resolve, .level => true
  | resolve, _ => false
  | version, _ => false

end CommandName

namespace Switch

/-- The option with a long name. -/
def ofLong? : String → Option Switch
  | "input" => some input
  | "output" => some output
  | "config" => some config
  | "optimization-level" => some level
  | "no-initial-wait" => some noInitialWait
  | "verbose" => some verbose
  | _ => none

/-- The option with a short name. -/
def ofShort? : Char → Option Switch
  | 'i' => some input
  | 'o' => some output
  | 'c' => some config
  | 'v' => some verbose
  | _ => none

/-- Whether an option takes a value. -/
def takesValue : Switch → Bool
  | input | output | config | level => true
  | noInitialWait | verbose => false

end Switch

/-- A level: an integer from 0 to 255, perhaps after a sign. -/
def levelOf? (text : String) : Option UInt8 :=
  let (negative, digits) := match text.toList with
    | '-' :: digits => (true, digits)
    | '+' :: digits => (false, digits)
    | digits => (false, digits)
  if digits.isEmpty || !digits.all Char.isDigit then none
  else
    let n := Nat.ofDigitChars 10 digits 0
    if n ≤ 255 ∧ (negative → n = 0) then some (UInt8.ofNat n) else none

namespace Given

/-- Record the value of an option that takes one; a second value is refused. -/
def setValue (g : Given) (s : Switch) (value : String) : Option Given :=
  match s with
  | .input => if g.input.isSome then none else some { g with input := some value }
  | .output => if g.output.isSome then none else some { g with output := some value }
  | .config => if g.config.isSome then none else some { g with config := some value }
  | .level =>
    if g.level.isSome then none
    else (levelOf? value).map fun level => { g with level := some level }
  | .noInitialWait | .verbose => none

/-- Record an option that takes no value. -/
def setFlag (g : Given) (s : Switch) : Option Given :=
  match s with
  | .noInitialWait => if g.noInitialWait then none else some { g with noInitialWait := true }
  | .verbose => some g
  | _ => none

/-- The command with the options that were given to it. The configuration may also come from the
environment. -/
def command? (g : Given) (configured : Option String) : CommandName → Option Command
  | .compile =>
    g.input.map fun input =>
      .compile input g.output (g.config.orElse fun _ => configured) g.level g.noInitialWait
  | .resolve => g.input.map fun input => .resolve input g.output (g.level.getD 1)
  | .version => some .version

end Given

/-- Whether an argument is a value and not an option. -/
def isValue (arg : String) : Bool := arg == "-" || arg.toList.head? != some '-'

/-- Short options of a command put together in one argument. The rest of the argument is the value
of an option that takes one; if nothing is left, `next` is. The answer says whether `next` was used.
-/
def readShort (name : CommandName) (next : Option String) (g : Given) :
    List Char → Option (Given × Bool)
  | [] => some (g, false)
  | c :: cs =>
    match Switch.ofShort? c with
    | none => none
    | some s =>
      if !name.accepts s then none
      else if !s.takesValue then
        match g.setFlag s with
        | some g => readShort name next g cs
        | none => none
      else
        match cs, next with
        | '=' :: value, _ => (g.setValue s (String.ofList value)).map (·, false)
        | [], some value => if isValue value then (g.setValue s value).map (·, true) else none
        | [], none => none
        | value, _ => (g.setValue s (String.ofList value)).map (·, false)

/-- A long option of a command, the name without its hyphens. -/
def readLong (name : CommandName) (next : Option String) (g : Given) (body : List Char) :
    Option (Given × Bool) :=
  let key := body.takeWhile (· != '=')
  let value := body.dropWhile (· != '=')
  match Switch.ofLong? (String.ofList key) with
  | none => none
  | some s =>
    if !name.accepts s then none
    else
      match s.takesValue, value, next with
      | true, _ :: value, _ => (g.setValue s (String.ofList value)).map (·, false)
      | true, [], some value => if isValue value then (g.setValue s value).map (·, true) else none
      | true, [], none => none
      | false, [], _ => (g.setFlag s).map (·, false)
      | false, _, _ => none

/-- The options of a command. -/
def readOptions (name : CommandName) (g : Given) : List String → Option Given
  | [] => some g
  | arg :: args =>
    let read : Option (Given × Bool) :=
      match arg.toList with
      | '-' :: '-' :: [] => if args.isEmpty then some (g, false) else none
      | '-' :: '-' :: body => readLong name args.head? g body
      | '-' :: c :: cs => readShort name args.head? g (c :: cs)
      | _ => none
    match read, args with
    | some (g, true), _ :: args => readOptions name g args
    | some (g, _), args => readOptions name g args
    | none, _ => none

/-- What short options before the command ask for: nothing, or the version number. -/
def readLeading : List Char → Option Bool
  | [] => some false
  | 'v' :: cs => readLeading cs
  | 'V' :: _ => some true
  | _ => none

/-- The command that arguments ask for. -/
def readArguments (configured : Option String) : List String → Option Command
  | [] => none
  | arg :: args =>
    if arg = "--version" then some .versionNumber
    else if arg = "--verbose" then readArguments configured args
    else
      match arg.toList with
      | '-' :: c :: cs =>
        match readLeading (c :: cs) with
        | some true => some .versionNumber
        | some false => readArguments configured args
        | none => none
      | _ =>
        match CommandName.ofString? arg with
        | some name =>
          match readOptions name {} args with
          | some g => g.command? configured name
          | none => none
        | none => none

end Lockstep.CommandLine
