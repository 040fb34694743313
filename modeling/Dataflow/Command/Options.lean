/-!
# Options of the command

    [FILE] [--parallel] [--max-depth N] [--no-cache] [--cache-dir DIR] [--debug-bytecode]
    [--debug-graph]

Values follow their option or stand behind `=`. After `--` nothing is an option any more.

* `Options`: what the command is asked to do;
* `Options.ofArguments`: the options of a list of arguments.
-/

namespace Dataflow

/-- What the command is asked to do. -/
structure Options where
  /-- The file with the program; without one it is read from the standard input. -/
  file? : Option String
  /-- Whether independent blocks may run side by side, which changes no result. -/
  parallel : Bool
  /-- How deeply calls may be nested. -/
  maxDepth : Nat
  useCache : Bool
  /-- The folder of the cache, if it is not the usual one. -/
  cacheFolder? : Option String
  /-- Whether to print the compiled unit. -/
  showCode : Bool
  /-- Whether to print the block graph. -/
  showGraph : Bool
  deriving DecidableEq, Repr, Inhabited

/-- Why arguments are refused. -/
inductive UsageError where
  | unknown (argument : String)
  | missingValue (option : String)
  | badValue (option value : String)
  | repeated (option : String)
  deriving DecidableEq, Repr, Inhabited

/-- The wording of an error. -/
def UsageError.message : UsageError → String
  | unknown argument => s!"unexpected argument '{argument}' found"
  | missingValue option => s!"a value is required for '{option}' but none was supplied"
  | badValue option value => s!"invalid value '{value}' for '{option}'"
  | repeated option => s!"the argument '{option}' cannot be used multiple times"

namespace Options

/-- What is done without any arguments. -/
def standard : Options := ⟨none, false, 1000, true, none, false, false⟩

/-- A number of at most 64 bits, perhaps with a plus sign. -/
def countOf? (text : String) : Option Nat :=
  let digits := match text.toList with
    | '+' :: cs => cs
    | cs => cs
  let n := digits.foldl (fun n c => 10 * n + (c.toNat - '0'.toNat)) 0
  if !digits.isEmpty && digits.all Char.isDigit && n ≤ 0xffffffffffffffff then some n else none

/-- An option and the value behind `=`, if there is one. -/
def splitOption (argument : String) : String × Option String :=
  let cs := argument.toList
  match cs.dropWhile (· != '=') with
  | [] => (argument, none)
  | _ :: value => (String.ofList (cs.takeWhile (· != '=')), some (String.ofList value))

/-- One more file; its name may not be empty. -/
def withFile (o : Options) (file : String) : Except UsageError Options :=
  if o.file?.isSome then .error (.unknown file)
  else if file.isEmpty then .error (.badValue "[FILE]" file)
  else .ok { o with file? := some file }

/-- One more option that takes no value; `seen` are those that have been given. -/
def withFlag (o : Options) (seen : List String) (name : String) : Except UsageError Options :=
  if name ∈ seen then .error (.repeated name)
  else
    match name with
    | "--parallel" => .ok { o with parallel := true }
    | "--no-cache" => .ok { o with useCache := false }
    | "--debug-bytecode" => .ok { o with showCode := true }
    | "--debug-graph" => .ok { o with showGraph := true }
    | other => .error (.unknown other)

/-- One more option with its value. -/
def withValue (o : Options) (seen : List String) (name value : String) :
    Except UsageError Options :=
  if name ∈ seen then .error (.repeated name)
  else if value.isEmpty then .error (.badValue name value)
  else if name = "--max-depth" then
    match countOf? value with
    | some n => .ok { o with maxDepth := n }
    | none => .error (.badValue name value)
  else .ok { o with cacheFolder? := some value }

/-- Whether an option takes a value. -/
def takesValue (name : String) : Bool := name == "--max-depth" || name == "--cache-dir"

/-- The remaining arguments as further options. -/
def readFrom (o : Options) (seen : List String) : List String → Except UsageError Options
  | [] => .ok o
  | "--" :: files => files.foldlM withFile o
  | argument :: rest =>
    if argument.startsWith "-" && argument != "-" then
      let (name, value?) := splitOption argument
      if takesValue name then
        match value?, rest with
        | some value, rest => do (← o.withValue seen name value).readFrom (name :: seen) rest
        | none, value :: rest =>
          if value.startsWith "-" && value != "-" then .error (.missingValue name)
          else do (← o.withValue seen name value).readFrom (name :: seen) rest
        | none, [] => .error (.missingValue name)
      else if value?.isSome then .error (.unknown argument)
      else do (← o.withFlag seen name).readFrom (name :: seen) rest
    else do (← o.withFile argument).readFrom seen rest

/-- The options of a list of arguments. -/
def ofArguments (arguments : List String) : Except UsageError Options :=
  standard.readFrom [] arguments

end Options

end Dataflow
