import Dataflow.Run.Script
import Dataflow.Value.Text

/-!
# Fields, texts and equality of values

A struct answers for itself: its fields, its text and its equality go through its dispatch function.
All other values have the methods of their type and the universal ones.

* `Value.select`: the field of a value;
* `Value.toText`: the text of a value;
* `Value.equals`: equality of values.
-/

namespace Dataflow

namespace Value

/-- A method of a value, with a new identity. -/
def bindMethod (v : Value) (m : Method) : Script Value :=
  return function (.method (← Script.identity) v m)

/-- A field that a value has without running anything, the universal methods left out. -/
def staticField (v : Value) (name : String) : Script (Option Value) :=
  match v with
  | library _ _ symbols => return symbols.lookup name
  | v =>
    match Method.find? (Method.ofType v.type) name with
    | some m => return some (← v.bindMethod m)
    | none => return none

/-- The fields that a value has without running anything, the universal methods left out. -/
def staticFields (v : Value) : Script (List (String × Value)) :=
  match v with
  | library _ _ symbols => return symbols
  | v => (Method.ofType v.type).mapM fun m => return (m.name, ← v.bindMethod m)

/-- What a message says about a field that a value does not have. -/
def missingField (v : Value) (name : String) : RunError :=
  match v with
  | library _ owner _ => .unknownSymbol owner name
  | v => .unknownField v.type name

/-- The field of a value, whatever form it is used in. -/
def field (v : Value) (name : String) : Script Value :=
  match v with
  | struct dispatch => Script.request (.call dispatch [str name])
  | v => do
    match ← v.staticField name with
    | some field => return field
    | none =>
      match Method.find? Method.universal name with
      | some m => v.bindMethod m
      | none => .fail (v.missingField name)

/-- The field of a value in a form. A function has to admit the form. -/
def select (v : Value) (name : String) (form : Form) : Script Value := do
  let field ← v.field name
  match field with
  | function f => if f.forms.admits form then return field else .fail (.wrongForm name form)
  | _ => return field

/-- Calls a method of a value. -/
def callMethod (v : Value) (name : String) (form : Form) (args : List Value) : Script Value := do
  Script.apply (← v.select name form) args

mutual

/-- The text of a value, as its method `str` gives it. -/
def toText : Value → Script String
  | struct dispatch => do
    match ← (struct dispatch).callMethod "str" .member [] with
    | str s => return s
    | other => .fail (.badResult "str" .string other.type)
  | tuple items => return bracketed (← toTexts items)
  | v => return v.display

/-- The texts of values, one after the other. -/
def toTexts : List Value → Script (List String)
  | [] => return []
  | v :: vs => return (← toText v) :: (← toTexts vs)

end

mutual

/-- Whether values are equal: structs by their own `==`, tuples element by element. -/
def equals : Value → Value → Script Bool
  | struct dispatch, b => do
    match ← (struct dispatch).callMethod "==" .binary [b] with
    | bool r => return r
    | other => .fail (.badResult "==" .bool other.type)
  | tuple as, tuple bs => if as.length = bs.length then equalsAll as bs else return false
  | a, b => return a.hostEq b

/-- Whether values are equal one by one; the first pair that differs ends it. -/
def equalsAll : List Value → List Value → Script Bool
  | a :: as, b :: bs => do if ← equals a b then equalsAll as bs else return false
  | _, _ => return true

end

end Value

end Dataflow
