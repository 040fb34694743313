import Dataflow.Command.Import
import Dataflow.Command.Options
import Dataflow.Text.Wrap

/-!
# The command

What the command does is a function of its arguments, the standard input and the files it finds: it
prints, ends with a code and may leave new files in the cache.

* `Report`: what the command does;
* `Options.execute`: compiles and runs a program;
* `report`: the command as a whole.
-/

namespace Dataflow

/-- What the command does. -/
structure Report where
  exitCode : Nat
  out : String
  err : String
  /-- The files afterwards. -/
  files : Files
  /-- The paths that were looked at. -/
  asked : List String
  deriving Inhabited

/-- What the command finds around it. -/
structure Surroundings where
  files : Files
  input : List UInt8
  /-- Where programs keep what can be computed again. -/
  cacheHome? : Option String
  deriving Inhabited

/-- How many cells a line of a message about a program takes, the mark before it left out. -/
def messageWidth : Nat := 74

/-- A message about a program that cannot be read. -/
def readingFailure (code what reason : String) : String :=
  "Error: weft::" ++ code ++ "\n\n  × "
    ++ String.intercalate "\n  │ " (wrapped messageWidth ("cannot read " ++ what))
    ++ "\n  ╰─▶ " ++ reason ++ "\n\n"

namespace Options

/-- The cache to use. -/
def cache? (o : Options) (cacheHome? : Option String) : Option Cache :=
  if o.useCache then
    (o.cacheFolder? <|> cacheHome?.map (joinPath · "weft")).map fun folder => ⟨folder⟩
  else none

/-- What programs are compiled with. -/
def compiler (o : Options) (cacheHome? : Option String) : Compiler :=
  ⟨.prelude 0, o.cache? cacheHome?⟩

/-- The folder of the program. -/
def folder (o : Options) : String :=
  match o.file? with
  | some path => parentFolder path
  | none => "."

/-- The text of the program, or what is printed if there is none. -/
def source (o : Options) (s : Surroundings) : Except String String :=
  match o.file? with
  | some path => (s.files.readText path).mapError (readingFailure "read" path)
  | none =>
    match textOf? s.input with
    | some text => .ok text
    | none => .error (readingFailure "stdin" "program from stdin" notText)

/-- What is printed before the program runs. -/
def debugText (o : Options) (p : Program) : String :=
  (if o.showCode then "=== Bytecode ===\n" ++ p.code.listing ++ "\n\n" else "")
    ++ (if o.showGraph then "=== Block Graph ===\n" ++ p.graph.listing ++ "\n\n" else "")

/-- A machine on which one identity is taken, by the library of the environment. -/
def machine : Machine := { Machine.blank with identities := 1 }

/-- What the program that is run can import. -/
def host (o : Options) (c : Compiler) (fs : Files) : Host :=
  ⟨⟨o.maxDepth, if o.parallel then .parallel else .sequential⟩, #[],
    some fun name => (c.findImport o.folder name fs).1.loaded⟩

/-- Compiles imports one after the other: what is printed about them, and the files afterwards. -/
def importEffects (o : Options) (c : Compiler) (fs : Files) (names : List String) :
    String × Files :=
  names.foldl
    (fun (err, fs) name =>
      let (found, fs) := c.findImport o.folder name fs
      (err ++ found.listing, fs))
    ("", fs)

/-- The path at which the cache has the unit of a source text. -/
def cachePath? (c : Compiler) (source : String) : Option String :=
  c.cache?.map (·.pathOf (.ofSource source))

/-- The paths that are looked at for an import. -/
def importPaths (o : Options) (c : Compiler) (fs : Files) (name : String) : List String :=
  match importPath? o.folder name with
  | none => []
  | some path =>
    match fs.readText path with
    | .error _ => [path]
    | .ok source => path :: (cachePath? c source).toList

/-- Runs a program and reports on it. -/
def runReport (o : Options) (c : Compiler) (fs : Files) (source : String) (p : Program) : Report :=
  let finish (m : Machine) (exitCode : Nat) (err : String) : Report :=
    let names := m.loads.toList
    let (listings, fs) := o.importEffects c fs names
    ⟨exitCode, o.debugText p ++ m.output, listings ++ err, fs, names.flatMap (o.importPaths c fs)⟩
  match (o.host c fs).run p machine with
  | .ok _ m => finish m 0 ""
  | .error (.error e) m => finish m 1 ((Failure.run e).diagnostic.render source true)
  | .error .exhausted m => finish m 1 ""

/-- Compiles and runs a program. -/
def execute (o : Options) (s : Surroundings) : Report :=
  let asked := o.file?.toList
  match o.source s with
  | .error err => ⟨1, "", err, s.files, asked⟩
  | .ok source =>
    let c := o.compiler s.cacheHome?
    let asked := asked ++ (cachePath? c source).toList
    match c.compile source s.files with
    | .error e fs => ⟨1, "", e.diagnostic.render source true, fs, asked⟩
    | .ok p fs =>
      let r := o.runReport c fs source p
      { r with asked := asked ++ r.asked }

end Options

/-- What the command does with its arguments. -/
def report (arguments : List String) (s : Surroundings) : Report :=
  match Options.ofArguments arguments with
  | .ok o => o.execute s
  | .error e => ⟨2, "", "error: " ++ e.message ++ "\n", s.files, []⟩

/-- The files of a report that were not there before or have changed. -/
def Report.written (r : Report) (before : Files) : List (Place × List UInt8) :=
  r.files.entries.filterMap fun (p, e) =>
    match e with
    | .folder => none
    | .file bytes => if before.at? p = some (.file bytes) then none else some (p, bytes)

/-- The paths of the files that were not there before, sorted. -/
def Report.made (r : Report) (before : Files) : List String :=
  r.files.filePaths.filter fun path => !before.filePaths.contains path

end Dataflow
