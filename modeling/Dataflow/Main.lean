import Dataflow.Command.Report

/-!
# The program

Carries out what `report` says. The files that a program looks at are not known beforehand, so the
report is made with the files read so far, and made again as long as it asks for others.
-/

namespace Dataflow.Command

/-- All bytes of a stream. -/
partial def readAll (stream : IO.FS.Stream) (bytes : ByteArray) : IO ByteArray := do
  let chunk ← stream.read 65536
  if chunk.isEmpty then return bytes else readAll stream (bytes ++ chunk)

/-- The files together with the one at a path, if it can be read. -/
def readFile (files : Files) (path : String) : IO Files := do
  try
    return files.plant path (← IO.FS.readBinFile path).toList
  catch _ => return files

/-- The report, once every file it asks for has been read, and those files. -/
partial def settle (arguments : List String) (s : Surroundings) (known : List String) :
    IO (Report × Files) := do
  let r := report arguments s
  match r.asked.filter fun path => !known.contains path with
  | [] => return (r, s.files)
  | unknown =>
    settle arguments { s with files := ← unknown.foldlM readFile s.files } (known ++ unknown)

/-- Where programs keep what can be computed again, by the usual variables. -/
def cacheHome? : IO (Option String) := do
  match (← IO.getEnv "XDG_CACHE_HOME").filter (·.startsWith "/") with
  | some folder => return some folder
  | none => return (← IO.getEnv "HOME").map (· ++ "/.cache")

/-- Writes a file and the folders around it. -/
def writeFile (place : Place) (bytes : List UInt8) : IO Unit := do
  IO.FS.createDirAll (Place.path place.dropLast)
  IO.FS.writeBinFile place.path ⟨bytes.toArray⟩

/-- Runs the command. -/
def run (arguments : List String) : IO UInt32 := do
  let needsInput := match Options.ofArguments arguments with
    | .ok o => o.file?.isNone
    | .error _ => false
  let input ← if needsInput then readAll (← IO.getStdin) .empty else pure .empty
  let (r, before) ← settle arguments ⟨.empty, input.toList, ← cacheHome?⟩ []
  for (place, bytes) in r.written before do writeFile place bytes
  IO.print r.out
  IO.eprint r.err
  return UInt32.ofNat r.exitCode

end Dataflow.Command

/-- The command. -/
def main (arguments : List String) : IO UInt32 := Dataflow.Command.run arguments
