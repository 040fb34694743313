import Dataflow.Compile.Emit
import Dataflow.Report.Failure
import Dataflow.Run.Evaluate
import Dataflow.Source.Read

/-!
# Compiling through the cache

The meaning of a unit depends on the numbers of the environment, while the cache knows only source
texts. So the cache is used only as long as nothing has been registered with the environment.

* `Compiler`: an environment and a cache;
* `Compiler.compile`: the program of a source text, from the cache if it is there.
-/

namespace Dataflow

/-- What programs are compiled against, and where they are kept. -/
structure Compiler where
  environment : Environment
  cache? : Option Cache
  deriving Inhabited

/-- Source text to unit, without any cache. -/
def Environment.compile (e : Environment) (source : String) : Except Failure Code := do
  let root ← (Node.parse source).mapError .source
  let code ← (root.compile e.idOf?).mapError .compile
  return code.withChecksum (.ofSource source)

namespace Compiler

/-- The cache, if it may be used. -/
def usableCache? (c : Compiler) : Option Cache :=
  if c.environment.hasHostEntries then none else c.cache?

/-- The unit of a source text in a cache. A damaged file counts as none. -/
def cached? (cache : Cache) (source : String) : EStateM Failure Files (Option Code) := do
  match cache.load (← get) (.ofSource source) with
  | .ok code? => return code?
  | .error (.corrupt _) => return none
  | .error e => throw (.cache e)

/-- Stores a unit. -/
def keep (cache : Cache) (code : Code) : EStateM Failure Files Unit := do
  match cache.store (← get) code with
  | .ok fs => set fs
  | .error e => throw (.cache e)

/-- Compiles a source text. -/
def compileAnew (c : Compiler) (source : String) : EStateM Failure Files Code :=
  match c.environment.compile source with
  | .ok code => pure code
  | .error e => throw e

/-- The unit of a source text. -/
def unit (c : Compiler) (source : String) : EStateM Failure Files Code := do
  match c.usableCache? with
  | none => c.compileAnew source
  | some cache =>
    match ← cached? cache source with
    | some code => return code
    | none =>
      let code ← c.compileAnew source
      keep cache code
      return code

/-- The program of a source text. -/
def compile (c : Compiler) (source : String) : EStateM Failure Files Program := do
  match Program.ofCode (← c.unit source) c.environment with
  | .ok p => return p
  | .error e => throw (.run e)

end Compiler

end Dataflow
