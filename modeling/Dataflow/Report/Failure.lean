import Dataflow.Cache.Store
import Dataflow.Compile.Error
import Dataflow.Run.Error
import Dataflow.Source.Error
import Dataflow.Value.Environment

/-!
# Failures

Everything that can go wrong with a program, and what is reported about it.

* `Failure`: an error of any stage;
* `Diagnostic`: a message with a code and, where it is known, a place and advice;
* `Failure.diagnostic`: what is reported.
-/

namespace Dataflow

/-- An error of any stage. -/
inductive Failure where
  | source (e : SourceError)
  | compile (e : CompileError)
  | run (e : RunError)
  | cache (e : CacheError)
  | environment (e : DuplicateName)
  deriving DecidableEq, Repr, Inhabited

/-- What is reported about a failure. -/
structure Diagnostic where
  message : String
  code : String
  span? : Option Span
  help? : Option String
  deriving DecidableEq, Repr, Inhabited

namespace Failure

/-- Whether the text of the program is at fault. -/
def isCompilation : Failure → Bool
  | source _ | compile _ => true
  | run _ | cache _ | environment _ => false

/-- The wording of a failure. -/
def message : Failure → String
  | source e => e.cause.message
  | compile e => e.cause.message
  | run e => e.message
  | cache e => e.message
  | environment e => e.message

/-- What is reported about a failure. Errors of running have no place. -/
def diagnostic : Failure → Diagnostic
  | source e => ⟨e.cause.message, e.cause.code, some e.span, e.cause.help⟩
  | compile e => ⟨e.cause.message, e.cause.code, some e.span, none⟩
  | run e =>
    if e.isLimit then
      ⟨"resource limit exceeded: " ++ e.message, "E002", none,
        some "raise the limit with --max-depth"⟩
    else ⟨"runtime error: " ++ e.message, "E001", none, none⟩
  | cache e => ⟨e.message, "C001", none, none⟩
  | environment e => ⟨e.message, "V001", none, none⟩

end Failure

end Dataflow
