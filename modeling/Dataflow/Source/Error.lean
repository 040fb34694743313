import Dataflow.Source.Rules

/-!
# Errors of reading

* `SourceError`: why a text is not a program, and where;
* `SourceError.Cause.message`: the wording;
* `Rule.expectation`: a set of rules in the words of a message.
-/

namespace Dataflow

/-- Alternatives in words: `a, b or c`. -/
def orList : List String → String
  | [] => "something else"
  | [only] => only
  | words => String.intercalate ", " words.dropLast ++ " or " ++ words.getLastD ""

/-- What a message expects where the given rules failed: each concept once, in rule order. -/
def Rule.expectation (failed : List Rule) : String :=
  orList ((Rule.all.filter failed.contains).map Rule.concept).eraseDups

namespace SourceError

/-- Why a text is not a program. -/
inductive Cause where
  /-- No rule matches; the text says what would have been accepted. -/
  | unexpected (expected : String)
  /-- An integer literal that needs more than 64 bits. -/
  | badNumber (text : String)
  | badEscape (c : Char)
  | tooDeep (depth limit : Nat)
  /-- A tree that the grammar does not produce. -/
  | malformed (what : String)
  deriving DecidableEq, Repr, Inhabited

namespace Cause

/-- The wording of a cause. -/
def message : Cause → String
  | unexpected expected => "expected " ++ expected ++ ", found unexpected token"
  | badNumber text => "invalid number literal `" ++ text ++ "`"
  | badEscape c => "unknown escape sequence `\\" ++ toString c ++ "`"
  | tooDeep depth limit =>
    s!"expression nesting depth {depth} exceeds maximum of {limit} levels"
  | malformed what => "malformed " ++ what

/-- The stable code of a cause. -/
def code : Cause → String
  | unexpected _ => "P001"
  | badNumber _ => "P002"
  | badEscape _ => "P003"
  | tooDeep _ _ => "P004"
  | malformed _ => "P999"

/-- What the reader of a message can do about it. -/
def help : Cause → Option String
  | unexpected _ => none
  | badNumber _ => some "integers must fit in 64 bits"
  | badEscape _ => some "supported escapes are \\n, \\t, \\\" and \\\\"
  | tooDeep _ _ => some "split deeply nested expressions into named values"
  | malformed _ => none

end Cause

end SourceError

/-- A cause and the place it points at. -/
structure SourceError where
  cause : SourceError.Cause
  span : Span
  deriving DecidableEq, Repr, Inhabited

end Dataflow
