/-!
# Files

What a program can see of a file system: folders, and files that are lists of bytes. A path is a
text with `/` between its parts, resolved part by part: every part but the last has to be a folder,
and neither a part nor the path may be too long.

* `Files`: folders and files;
* `Files.read`, `write`, `makeFolders`, `rename`: the operations, each with its errors.
-/

namespace Dataflow

/-- The parts of a resolved path. -/
abbrev Place := List String

/-- What stands at a place. -/
inductive FileEntry where
  | file (bytes : List UInt8)
  | folder
  deriving DecidableEq, Repr, Inhabited

/-- Why an operation on files fails. -/
inductive FileError where
  | missing
  | exists
  | notFolder
  | isFolder
  | nameTooLong
  deriving DecidableEq, Repr, Inhabited

/-- The wording of an error, as the system gives it. -/
def FileError.message : FileError → String
  | missing => "No such file or directory (os error 2)"
  | .exists => "File exists (os error 17)"
  | notFolder => "Not a directory (os error 20)"
  | isFolder => "Is a directory (os error 21)"
  | nameTooLong => "File name too long (os error 36)"

/-- How many bytes a part of a path may have. -/
def longestPart : Nat := 255

/-- How many bytes a path may have. -/
def longestPath : Nat := 4095

/-- Folders and files by place; what is added later stands first. -/
structure Files where
  entries : List (Place × FileEntry)
  deriving Inhabited

/-- A path below another one. -/
def joinPath (folder name : String) : String :=
  if folder.isEmpty then name
  else if folder.endsWith '/' then folder ++ name
  else folder ++ "/" ++ name

/-- The parts of a path; a path from the root of the file system starts with the part `/`. -/
def pathParts (path : String) : List String :=
  (if path.startsWith '/' then ["/"] else []) ++ (path.toList.splitOn '/').map String.ofList

/-- One part further. -/
def Place.step (p : Place) (part : String) : Place :=
  if part = "" ∨ part = "." then p
  else if part = ".." then
    match p.getLast? with
    | none | some ".." => p ++ [part]
    | some _ => p.dropLast
  else p ++ [part]

/-- The place of a path, without looking at any files. -/
def Place.ofPath (path : String) : Place := (pathParts path).foldl Place.step []

/-- A place as a path. -/
def Place.path (p : Place) : String := String.intercalate "/" p

namespace Files

/-- Nothing but the folder that relative paths start from. -/
def empty : Files := ⟨[]⟩

/-- What stands at a place. -/
def at? (fs : Files) (p : Place) : Option FileEntry :=
  if p.isEmpty then some .folder else fs.entries.lookup p

/-- Puts an entry at a place. -/
def put (fs : Files) (p : Place) (e : FileEntry) : Files :=
  ⟨(p, e) :: fs.entries.filter fun entry => entry.1 != p⟩

/-- Takes the entry at a place away. -/
def remove (fs : Files) (p : Place) : Files := ⟨fs.entries.filter fun entry => entry.1 != p⟩

/-- Follows the parts of a path from a place. -/
def follow (fs : Files) (p : Place) : List String → Except FileError Place
  | [] => .ok p
  | part :: parts =>
    match fs.at? p with
    | none => .error .missing
    | some (.file _) => .error .notFolder
    | some .folder =>
      if longestPart < part.utf8ByteSize then .error .nameTooLong
      else fs.follow (p.step part) parts

/-- The place of a path. -/
def resolve (fs : Files) (path : String) : Except FileError Place :=
  if longestPath < path.utf8ByteSize then .error .nameTooLong else fs.follow [] (pathParts path)

/-- The bytes of a file. -/
def read (fs : Files) (path : String) : Except FileError (List UInt8) := do
  match fs.at? (← fs.resolve path) with
  | none => .error .missing
  | some .folder => .error .isFolder
  | some (.file bytes) => .ok bytes

/-- Writes a file, new or not, in a folder that exists. -/
def write (fs : Files) (path : String) (bytes : List UInt8) : Except FileError Files := do
  let p ← fs.resolve path
  match fs.at? p with
  | some .folder => .error .isFolder
  | _ => .ok (fs.put p (.file bytes))

/-- Makes a folder unless it is there. -/
def makeFolder (fs : Files) (p : Place) (last : Bool) : Except FileError Files :=
  match fs.at? p with
  | none => .ok (fs.put p .folder)
  | some .folder => .ok fs
  | some (.file _) => .error (if last then .exists else .notFolder)

/-- Makes the folders along the parts of a path, from a place on. -/
def makeFrom (fs : Files) (p : Place) : List String → Except FileError Files
  | [] => .ok fs
  | part :: parts =>
    if longestPart < part.utf8ByteSize then .error .nameTooLong
    else do
      let p := p.step part
      (← fs.makeFolder p parts.isEmpty).makeFrom p parts

/-- Makes a folder and those around it. -/
def makeFolders (fs : Files) (path : String) : Except FileError Files :=
  if longestPath < path.utf8ByteSize then .error .nameTooLong else fs.makeFrom [] (pathParts path)

/-- Moves a file to another path, over a file that may stand there. -/
def rename (fs : Files) (source target : String) : Except FileError Files := do
  let p ← fs.resolve source
  let q ← fs.resolve target
  match fs.at? p, fs.at? q with
  | none, _ => .error .missing
  | some (.file _), some .folder => .error .isFolder
  | some .folder, some (.file _) => .error .notFolder
  | some e, _ => .ok ((fs.remove p).put q e)

/-- A file together with the folders around it, whatever was there. -/
def plant (fs : Files) (path : String) (bytes : List UInt8) : Files :=
  let p := Place.ofPath path
  let folders := (List.range p.length).map fun n => p.take n
  (folders.foldl (fun fs f => if (fs.at? f).isSome then fs else fs.put f .folder) fs).put p
    (.file bytes)

/-- The places of all files. -/
def filePlaces (fs : Files) : List Place :=
  fs.entries.filterMap fun (p, e) => if e == .folder then none else some p

/-- The paths of all files, sorted. -/
def filePaths (fs : Files) : List String :=
  (fs.filePlaces.map Place.path).mergeSort fun a b => decide (a ≤ b)

end Files

end Dataflow
