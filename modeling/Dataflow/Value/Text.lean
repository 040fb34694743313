import Dataflow.Decimal.Text
import Dataflow.Text.Quoted
import Dataflow.Value.Basic

/-!
# Values as text

* `Value.display`: the text of a value, structs left opaque;
* `Value.inspect`: the same with texts in quotes.
-/

namespace Dataflow

/-- A function as text. -/
def Function.display (f : Function) : String := "<" ++ f.name ++ ">"

namespace Value

mutual

/-- A value as text. -/
def display : Value → String
  | unit => "()"
  | bool b => if b then "true" else "false"
  | int n => toString n.toInt
  | float x => floatText x
  | str s => s
  | tuple items => bracketed (displayAll items)
  | function f => f.display
  | struct _ => "<struct>"
  | library _ name _ => "<library " ++ name ++ ">"

/-- Values as texts. -/
def displayAll : List Value → List String
  | [] => []
  | v :: vs => display v :: displayAll vs

end

mutual

/-- A value as text, with texts in quotes. -/
def inspect : Value → String
  | str s => quoted s
  | tuple items => bracketed (inspectAll items)
  | v => v.display

/-- Values as texts, with texts in quotes. -/
def inspectAll : List Value → List String
  | [] => []
  | v :: vs => inspect v :: inspectAll vs

end

end Value

end Dataflow
