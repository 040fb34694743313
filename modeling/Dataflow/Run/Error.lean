import Dataflow.Graph.Build
import Dataflow.Value.Kind

/-!
# Errors of running programs

* `Malformation`: what can be wrong with a unit;
* `RunError`: why a run ends early;
* `RunError.message`: the wording.
-/

namespace Dataflow

/-- What can be wrong with a unit. -/
inductive Malformation where
  | graph (e : GraphError)
  | undecodable (constant : ConstantId)
  | missingConstant (constant : ConstantId)
  | outsideScope (id : ValueId)
  | writtenTwice (id : ValueId)
  | noValue (id : ValueId)
  deriving DecidableEq, Repr, Inhabited

/-- The wording of a malformation. -/
def Malformation.message : Malformation → String
  | graph e => e.message
  | undecodable c => "constant #" ++ toString c.toNat ++ " cannot be decoded"
  | missingConstant c => "constant #" ++ toString c.toNat ++ " is out of range"
  | outsideScope id => id.text ++ " is outside its scope"
  | writtenTwice id => id.text ++ " written twice"
  | noValue id => "block for " ++ id.text ++ " produces no value"

/-- Why a run ends early. -/
inductive RunError where
  | wrongCount (function expected : String) (got : Nat)
  | wrongKind (function : String) (index : Nat) (expected : Kind) (got : ValueType)
  | notCallable (type : ValueType)
  /-- The constant that names a field is not a text. -/
  | fieldNotText (constant : ConstantId)
  | unknownField (type : ValueType) (field : String)
  /-- So many blocks wait for each other. -/
  | cycle (left : Nat)
  | emptyBody
  | divisionByZero
  /-- A method of a struct must return another type. -/
  | badResult (method : String) (expected got : ValueType)
  | wrongForm (field : String) (form : Form)
  | unknownSymbol (library symbol : String)
  | overflow (operation : String)
  | outOfBounds (index : Int64) (length : Nat)
  | unavailable (id : ValueId)
  | malformed (m : Malformation)
  | noLoader (target : String)
  | loadFailed (target message : String)
  /-- Calls are nested deeper than the limit. -/
  | tooDeep (depth limit : Nat)
  deriving DecidableEq, Repr, Inhabited

namespace RunError

/-- The wording of an error. -/
def message : RunError → String
  | wrongCount function expected got => s!"{function} expects {expected} argument(s), got {got}"
  | wrongKind function index expected got =>
    s!"argument {index} of {function} must be {expected.word}, got {got.word}"
  | notCallable type => s!"cannot call a value of type {type.word}"
  | fieldNotText constant => s!"field name constant #{constant.toNat} is not a string"
  | unknownField type field => s!"{type.word} has no field `{field}`"
  | cycle left => s!"{left} block(s) could not be scheduled because of a dependency cycle"
  | emptyBody => "function body has no blocks"
  | divisionByZero => "division by zero"
  | badResult method expected got => s!"`{method}` must return a {expected.word}, got {got.word}"
  | wrongForm field form => s!"field `{field}` cannot be used in {form.word} form"
  | unknownSymbol library symbol => s!"library `{library}` has no symbol `{symbol}`"
  | overflow operation => s!"integer overflow in `{operation}`"
  | outOfBounds index length => s!"index {index.toInt} out of bounds (length: {length})"
  | unavailable id => s!"value {id.text} is not available"
  | malformed m => s!"malformed bytecode: {m.message}"
  | noLoader target => s!"cannot import `{target}`: no module loader is configured"
  | loadFailed target message => s!"failed to load module `{target}`: {message}"
  | tooDeep depth limit =>
    s!"evaluation stack overflow: depth {depth} exceeds maximum of {limit}"

/-- Whether the run was stopped by a limit rather than by what it did. -/
def isLimit : RunError → Bool
  | tooDeep _ _ => true
  | _ => false

end RunError

end Dataflow
