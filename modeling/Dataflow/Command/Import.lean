import Dataflow.Cache.Compiler
import Dataflow.Report.Listing
import Dataflow.Text.Letters

/-!
# Imports

A program imports others by name from the folder it stands in. A name is made of letters, digits,
`_` and `-`, so it cannot lead out of the folder.

* `importPath?`: the path of a name;
* `Compiler.findImport`: what is found there;
* `parentFolder`: the folder of a program.
-/

namespace Dataflow

/-- A path without the separators, and the parts that say nothing, at its end. -/
def trimPath (path : List Char) : List Char :=
  go path.length path.reverse
where
  /-- The same for a path in reverse order, of at most so many characters. -/
  go : Nat → List Char → List Char
    | n + 1, '/' :: rest => if rest.isEmpty then ['/'] else go n rest
    | n + 1, '.' :: '/' :: rest => go n ('/' :: rest)
    | _, rest => rest.reverse

/-- The folder that a path leads into. -/
def parentFolder (path : String) : String :=
  let cs := (trimPath path.toList).reverse
  String.ofList (trimPath (cs.dropWhile (· != '/')).reverse)

/-- Whether something can be imported under a name. -/
def isImportName (name : String) : Bool :=
  !name.isEmpty && name.toList.all fun c => isAlphanumeric c || c == '_' || c == '-'

/-- The path of a name, seen from a folder. -/
def importPath? (folder name : String) : Option String :=
  if isImportName name then some (joinPath folder (name ++ ".wf")) else none

/-- What is said about bytes that are no text. -/
def notText : String := "stream did not contain valid UTF-8"

/-- The text of a file, or why there is none. -/
def Files.readText (fs : Files) (path : String) : Except String String :=
  match fs.read path with
  | .error e => .error e.message
  | .ok bytes =>
    match textOf? bytes with
    | some text => .ok text
    | none => .error notText

/-- What is found under a name. -/
inductive Import where
  | refused (message : String)
  /-- A file that does not compile, with its text. -/
  | broken (path source : String) (e : Failure)
  | ready (p : Program)
  deriving Inhabited

namespace Import

/-- What the program that imports gets to know. -/
def loaded : Import → Loaded
  | refused message => .failed message
  | broken path _ _ => .failed (path ++ " does not compile")
  | ready p => .program p false

/-- What is printed about it. -/
def listing : Import → String
  | broken _ source e => e.diagnostic.render source true
  | refused _ | ready _ => ""

end Import

/-- What is found under a name in a folder, and the files after it has been compiled. -/
def Compiler.findImport (c : Compiler) (folder name : String) (fs : Files) : Import × Files :=
  match importPath? folder name with
  | none => (.refused ("`" ++ name ++ "` is not a valid module name"), fs)
  | some path =>
    match fs.readText path with
    | .error reason => (.refused ("cannot read " ++ path ++ ": " ++ reason), fs)
    | .ok source =>
      match c.compile source fs with
      | .ok p fs => (.ready p, fs)
      | .error e fs => (.broken path source e, fs)

end Dataflow
