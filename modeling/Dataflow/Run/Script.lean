import Dataflow.Run.Error
import Dataflow.Value.Basic

/-!
# Scripts

A native function is a script: it computes, and it may ask the running program to call a function
or to load a module, to print, for a new identity or for the depth of calls. What it asks for is
answered with a value or with an error, and a script goes on from either; the built-in functions
hand every error on.

Left out are functions that remember something from one call to the next, and those that start a run
of their own, outside the depth of the call that they are in.

* `Request`: what is answered with a value or an error;
* `Script`: scripts, as trees of requests;
* `Script.request`: a request whose error is handed on;
* `Script.apply`: calls a value, if it can be called.
-/

namespace Dataflow

/-- What a running program is asked to do. -/
inductive Request where
  | call (f : Function) (args : List Value)
  | load (target : String)

/-- A computation that makes requests. -/
inductive Script (α : Type) where
  | done (a : α)
  | fail (e : RunError)
  /-- Goes on with the answer to a request, be it a value or an error. -/
  | ask (r : Request) (next : Except RunError Value → Script α)
  | print (text : String) (next : Script α)
  /-- Goes on with a number that nothing else has. -/
  | mint (next : Nat → Script α)
  /-- Goes on with the depth of calls. -/
  | depth (next : Nat → Script α)

namespace Script

variable {α β : Type}

/-- One script after another. -/
def bind : Script α → (α → Script β) → Script β
  | done a, f => f a
  | fail e, _ => fail e
  | ask r next, f => ask r fun answer => (next answer).bind f
  | print text next, f => print text (next.bind f)
  | mint next, f => mint fun n => (next n).bind f
  | depth next, f => depth fun n => (next n).bind f

instance : Monad Script where
  pure := done
  bind := bind

/-- A result as a script. -/
def ofExcept : Except RunError α → Script α
  | .ok a => done a
  | .error e => fail e

/-- Asks the running program, and hands an error on. -/
def request (r : Request) : Script Value := ask r ofExcept

/-- Prints a text. -/
def write (text : String) : Script Unit := print text (done ())

/-- A number that nothing else has. -/
def identity : Script Nat := mint done

/-- The depth of calls. -/
def callDepth : Script Nat := depth done

/-- Calls a value. A struct is called through its dispatch function. -/
def apply (callee : Value) (args : List Value) : Script Value :=
  match callee with
  | .function f | .struct f => request (.call f args)
  | other => fail (.notCallable other.type)

end Script

end Dataflow
