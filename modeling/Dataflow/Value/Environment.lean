import Dataflow.Value.Basic

/-!
# Environments

The values that programs find by name without defining them. The entry at position `i` has the
number `-(i + 1)`, so entries keep their numbers when others are added behind them.

* `Environment.register`: adds an entry;
* `Environment.idOf?`, `nameOf?`, `get?`: entries by name and by number.
-/

namespace Dataflow

/-- Named values in order, of which the first ones are standard. -/
structure Environment where
  entries : List (String × Value)
  standardCount : Nat
  deriving Inhabited

/-- A name can be registered once. -/
structure DuplicateName where
  name : String
  deriving DecidableEq, Repr, Inhabited

/-- The wording of the error. -/
def DuplicateName.message (e : DuplicateName) : String :=
  "built-in `" ++ e.name ++ "` is already defined"

namespace Environment

/-- No entries at all. -/
def empty : Environment := ⟨[], 0⟩

/-- The given entries as standard ones. -/
def standard (entries : List (String × Value)) : Environment := ⟨entries, entries.length⟩

/-- The number of the entry at a position. -/
def idAt (index : Nat) : ValueId := -(Int32.ofNat index) - 1

/-- The position of the entry with a number. -/
def indexOf? (id : ValueId) : Option Nat := if id < 0 then some (-id.toInt - 1).toNat else none

/-- The number of the entry with a name. -/
def idOf? (e : Environment) (name : String) : Option ValueId :=
  (e.entries.findIdx? fun entry => entry.1 == name).map idAt

/-- The entry with a number. -/
def entry? (e : Environment) (id : ValueId) : Option (String × Value) := do
  e.entries[← indexOf? id]?

/-- The value with a number. -/
def get? (e : Environment) (id : ValueId) : Option Value := (e.entry? id).map (·.2)

/-- The name of the entry with a number. -/
def nameOf? (e : Environment) (id : ValueId) : Option String := (e.entry? id).map (·.1)

/-- How many entries there are. -/
def size (e : Environment) : Nat := e.entries.length

/-- Whether there are entries beyond the standard ones. -/
def hasHostEntries (e : Environment) : Bool := e.standardCount < e.size

/-- Adds an entry behind the others, unless its name is taken. -/
def register (e : Environment) (name : String) (value : Value) :
    Except DuplicateName (ValueId × Environment) :=
  if (e.idOf? name).isSome then .error ⟨name⟩
  else .ok (idAt e.size, { e with entries := e.entries ++ [(name, value)] })

end Environment

end Dataflow
