import Dataflow.Run.Arithmetic
import Dataflow.Run.Field
import Dataflow.Value.Environment

/-!
# What built-in functions and methods do

A function sees its arguments after they have been checked against its signature, a method its own
value before them.

* `Signature.check`: the check;
* `Method.script`, `Builtin.script`: the functions;
* `Value.mathLibrary`: the library of mathematical functions;
* `Environment.prelude`: what programs find by name.
-/

namespace Dataflow

/-- The first argument, counted from `index`, that is not of its kind. -/
def Signature.firstBad (s : Signature) (index : Nat) : List Value → Option (Nat × Kind × ValueType)
  | [] => none
  | v :: vs =>
    match s.kindAt index with
    | some kind =>
      if kind.admits v.type then s.firstBad (index + 1) vs else some (index, kind, v.type)
    | none => s.firstBad (index + 1) vs

/-- Checks the number of arguments, then their kinds. -/
def Signature.check (s : Signature) (function : String) (args : List Value) :
    Except RunError Unit :=
  if s.acceptsCount args.length then
    match s.firstBad 0 args with
    | some (index, kind, type) => .error (.wrongKind function index kind type)
    | none => .ok ()
  else .error (.wrongCount function s.arity args.length)

/-! ## Methods -/

/-- An operation on numbers. -/
def arithmetic (name : String) (ints : Int64 → Int64 → Except RunError Value)
    (floats : Float → Float → Except RunError Value) (a b : Value) : Script Value :=
  .ofExcept do
    match ← operands name a b with
    | .ints a b => ints a b
    | .floats x y => floats x y

/-- A comparison of numbers. -/
def comparison (name : String) (ints : Int64 → Int64 → Bool) (floats : Float → Float → Bool)
    (a b : Value) : Script Value :=
  arithmetic name (fun a b => .ok (.bool (ints a b))) (fun x y => .ok (.bool (floats x y))) a b

/-- The negative of a number. -/
def negative : Value → Script Value
  | .int a => .ofExcept (checked "-" (-a.toInt))
  | .float x => return .float (-x)
  | other => .fail (.wrongKind "-" 0 .number other.type)

/-- An operation on truth values; both sides have been computed. -/
def logic (name : String) (f : Bool → Bool → Bool) : Value → Value → Script Value
  | .bool a, .bool b => return .bool (f a b)
  | .bool _, other => .fail (.wrongKind name 0 .bool other.type)
  | other, _ => .fail (.wrongKind name 0 .bool other.type)

/-- The item of a tuple at an index. -/
def itemAt (items : List Value) (index : Int64) : Script Value :=
  let found := if 0 ≤ index.toInt then items[index.toInt.toNat]? else none
  match found with
  | some v => return v
  | none => .fail (.outOfBounds index items.length)

/-- What a method does with its own value and its first argument; a missing one is unit. -/
def Method.script (m : Method) (receiver : Value) (args : List Value) : Script Value :=
  let arg := args.headD .unit
  match m with
  | add => arithmetic "+" (fun a b => checked "+" (a.toInt + b.toInt))
      (fun x y => .ok (.float (x + y))) receiver arg
  | sub =>
    if args.isEmpty then negative receiver
    else arithmetic "-" (fun a b => checked "-" (a.toInt - b.toInt))
      (fun x y => .ok (.float (x - y))) receiver arg
  | mul => arithmetic "*" (fun a b => checked "*" (a.toInt * b.toInt))
      (fun x y => .ok (.float (x * y))) receiver arg
  | div => arithmetic "/" intDiv floatDiv receiver arg
  | rem => arithmetic "%" intRem floatMod receiver arg
  | lt => comparison "<" (fun a b => a < b) (fun x y => x < y) receiver arg
  | gt => comparison ">" (fun a b => b < a) (fun x y => y < x) receiver arg
  | le => comparison "<=" (fun a b => a ≤ b) (fun x y => x ≤ y) receiver arg
  | ge => comparison ">=" (fun a b => b ≤ a) (fun x y => y ≤ x) receiver arg
  | not =>
    match receiver with
    | .bool b => return .bool !b
    | other => .fail (.wrongKind "!" 0 .bool other.type)
  | and => logic "&&" (fun a b => a && b) receiver arg
  | or => logic "||" (fun a b => a || b) receiver arg
  | concat =>
    match receiver, arg with
    | .str a, .str b => return .str (a ++ b)
    | .str _, other => .fail (.wrongKind "+" 0 .string other.type)
    | other, _ => .fail (.wrongKind "+" 0 .string other.type)
  | textLength =>
    match receiver with
    | .str s => return .int (Int64.ofNat s.length)
    | other => .fail (.wrongKind "len" 0 .string other.type)
  | tupleLength =>
    match receiver with
    | .tuple items => return .int (Int64.ofNat items.length)
    | other => .fail (.wrongKind "len" 0 .tuple other.type)
  | tupleGet =>
    match receiver, arg with
    | .tuple items, .int index => itemAt items index
    | _, other => .fail (.wrongKind "get" 0 .int other.type)
  | text => return .str (← receiver.toText)
  | equal => return .bool (← receiver.equals arg)
  | differ => return .bool !(← receiver.equals arg)

/-! ## Functions -/

/-- The texts of values with spaces between them. -/
def spacedText (args : List Value) : Script String :=
  return String.intercalate " " (← Value.toTexts args)

/-- What a built-in function does with its arguments; a missing one is unit. -/
def Builtin.script (b : Builtin) (args : List Value) : Script Value :=
  let arg (i : Nat) : Value := args.getD i .unit
  match b with
  | print => do
    Script.write (← spacedText args)
    return .unit
  | println => do
    Script.write ((← spacedText args) ++ "\n")
    return .unit
  | choose =>
    match arg 0 with
    | .bool true => Script.apply (arg 1) []
    | _ => Script.apply (arg 2) []
  | struct =>
    match arg 0 with
    | .function f => return .struct f
    | other => .fail (.wrongKind "struct" 0 .function other.type)
  | tuple => return .tuple args
  | load =>
    match arg 0 with
    | .str name => Script.request (.load name)
    | _ => Script.request (.load "")
  | sqrt => return .float (arg 0).asFloat.sqrt
  | abs =>
    match arg 0 with
    | .int n => .ofExcept (checked "abs" n.toInt.natAbs)
    | other => return .float other.asFloat.abs
  | floor =>
    match arg 0 with
    | .int n => return .int n
    | other => return .float other.asFloat.floor
  | pow =>
    match arg 0, arg 1 with
    | .int a, .int b =>
      if 0 ≤ b.toInt then .ofExcept (intPow a b) else return .float (a.toFloat.pow b.toFloat)
    | a, b => return .float (a.asFloat.pow b.asFloat)
  | min =>
    match arg 0, arg 1 with
    | .int a, .int b => return .int (if b < a then b else a)
    | a, b => return .float (floatMin a.asFloat b.asFloat)
  | max =>
    match arg 0, arg 1 with
    | .int a, .int b => return .int (if a < b then b else a)
    | a, b => return .float (floatMax a.asFloat b.asFloat)

/-- The double nearest to the circle constant. -/
def floatPi : Float := Float.ofBits 0x400921fb54442d18

/-- The double nearest to the base of natural logarithms. -/
def floatE : Float := Float.ofBits 0x4005bf0a8b145769

/-- The library of mathematical functions, with a given identity. -/
def Value.mathLibrary (identity : Nat) : Value :=
  .library identity "math"
    ([("pi", .float floatPi), ("e", .float floatE)]
      ++ [Builtin.sqrt, .abs, .floor, .pow, .min, .max].map fun b => (b.name, .ofBuiltin b))

/-- What programs find by name, with the `math` library under a given identity. -/
def Environment.prelude (identity : Nat) : Environment :=
  .standard ([("true", .bool true), ("false", .bool false), ("unit", .unit)]
    ++ [Builtin.print, .println, .choose, .struct, .tuple, .load].map
      (fun b => (b.name, .ofBuiltin b))
    ++ [("math", .mathLibrary identity)])

end Dataflow
