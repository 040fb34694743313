import Dataflow.Code.Instruction

/-!
# Errors of compiling

* `CompileError`: why a tree cannot be compiled, and where;
* `CompileError.Cause.message`: the wording.
-/

namespace Dataflow

namespace CompileError

/-- Why a tree cannot be compiled. -/
inductive Cause where
  | unknownValue (name : String)
  | unknownField (field : String)
  | alreadyDefined (name : String)
  | wrongForm (field : String) (form : Form)
  /-- The root is not a list of statements. -/
  | notAList
  /-- No constant has this position in the pool. -/
  | missingConstant (index : Nat)
  | misplacedFunction (name : String)
  deriving DecidableEq, Repr, Inhabited

namespace Cause

/-- The wording of a cause. -/
def message : Cause → String
  | unknownValue name => s!"unknown value `{name}`"
  | unknownField field => s!"unknown field `{field}`"
  | alreadyDefined name => s!"`{name}` is already defined in this scope"
  | wrongForm field form => s!"field `{field}` cannot be used in {form.word} form"
  | notAList => "a program must be a list of statements"
  | missingConstant index => s!"constant pool has no entry for index {index}"
  | misplacedFunction name =>
    s!"function `{name}` must be declared directly in a function body or at the top level"

/-- The stable code of a cause. -/
def code : Cause → String
  | unknownValue _ => "T001"
  | unknownField _ => "T002"
  | alreadyDefined _ => "T003"
  | wrongForm _ _ => "T004"
  | notAList => "T005"
  | missingConstant _ => "T006"
  | misplacedFunction _ => "T007"

end Cause

end CompileError

/-- A cause and the place it points at. -/
structure CompileError where
  cause : CompileError.Cause
  span : Span
  deriving DecidableEq, Repr, Inhabited

end Dataflow
