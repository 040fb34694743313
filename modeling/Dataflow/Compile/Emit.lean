import Dataflow.Code.Unit
import Dataflow.Compile.Pool
import Dataflow.Value.Builtin

/-!
# Compiling programs

A tree becomes a flat list of instructions. Every scope, the root's or a function's, numbers its
values in one sequence: parameters, then the functions declared in it, then all other values as they
are produced. A function body goes on from the number its scope had reached.

* `Scope`: names and numbers of one scope;
* `Emission`: what has been compiled so far;
* `Node.emit`: the instructions of a tree and the number of its value;
* `Node.compile`: the unit of a program.
-/

namespace Dataflow

/-- What is known in one scope. -/
structure Scope where
  names : List (String × ValueId)
  /-- Constants that have a value in this scope already. -/
  literals : List (ConstantId × ValueId)
  next : ValueId
  /-- The number that was given out last. -/
  last : Option ValueId
  deriving Repr, Inhabited

namespace Scope

/-- A scope whose values start at a number. -/
def startingAt (first : ValueId) : Scope := ⟨[], [], first, none⟩

/-- Gives out the next number. -/
def allocate (s : Scope) : ValueId × Scope :=
  (s.next, { s with next := s.next + 1, last := some s.next })

/-- Binds a name. -/
def bind (s : Scope) (name : String) (id : ValueId) : Scope :=
  { s with names := (name, id) :: s.names }

/-- Whether a name is bound here. -/
def binds (s : Scope) (name : String) : Bool := (s.names.lookup name).isSome

end Scope

/-- What has been compiled so far: the innermost scope, those around it, the constants and the
instructions. -/
structure Emission where
  scope : Scope
  around : List Scope
  pool : Pool
  instructions : Array Instruction
  deriving Inhabited

/-- Compiling: an emission that grows, or an error. -/
abbrev Emit := StateT Emission (Except CompileError)

namespace Emit

/-- Ends with an error. -/
def fail {α : Type} (cause : CompileError.Cause) (span : Span) : Emit α :=
  fun _ => .error ⟨cause, span⟩

/-- Adds an instruction. -/
def emit (i : Instruction) : Emit Unit :=
  modify fun s => { s with instructions := s.instructions.push i }

/-- Gives out the next number of the innermost scope. -/
def allocate : Emit ValueId :=
  modifyGet fun s => let (id, scope) := s.scope.allocate; (id, { s with scope })

/-- Adds an instruction that produces a value. -/
def emitValue (i : Instruction) : Emit ValueId := do
  emit i
  allocate

/-- The position of a constant. -/
def intern (c : Constant) : Emit ConstantId :=
  modifyGet fun s => let (id, pool) := s.pool.intern c; (id, { s with pool })

/-- Binds a name in the innermost scope. -/
def bind (name : String) (id : ValueId) : Emit Unit :=
  modify fun s => { s with scope := s.scope.bind name id }

/-- Refuses a name that is bound in the innermost scope. -/
def requireFree (name : String) (span : Span) : Emit Unit := do
  if (← get).scope.binds name then fail (.alreadyDefined name) span

/-- The number of a name: from the innermost scope that binds it, or built in. -/
def resolve (builtin : String → Option ValueId) (name : String) (span : Span) : Emit ValueId := do
  let s ← get
  match (s.scope :: s.around).findSome? fun scope => scope.names.lookup name with
  | some id => return id
  | none =>
    match builtin name with
    | some id => return id
    | none => fail (.unknownValue name) span

/-- A literal; within a scope equal literals share one value. -/
def literal (l : Literal) : Emit ValueId := do
  let constant := match l with
    | .int n => Constant.ofInt n
    | .float x => Constant.ofFloat x
    | .str s => Constant.ofText s
  let id ← intern constant
  match (← get).scope.literals.lookup id with
  | some value => return value
  | none =>
    let value ← emitValue (.constant id)
    modify fun s => { s with scope := { s.scope with literals := (id, value) :: s.scope.literals } }
    return value

/-- Refuses names that are bound already or given twice; `seen` are the names before them. -/
def requireNew (span : Span) (seen : List String) : List String → Emit Unit
  | [] => return ()
  | name :: names => do
    if name ∈ seen then fail (.alreadyDefined name) span
    requireFree name span
    requireNew span (seen ++ [name]) names

/-- Binds names to one value, once all of them have been found free. -/
def assign (names : List String) (value : ValueId) (span : Span) : Emit ValueId := do
  requireNew span [] names
  names.forM fun name => bind name value
  return value

/-- Refuses a field that does not exist, or not in this form, whatever the value is. -/
def requireField (field : String) (form : Form) (span : Span) : Emit Unit :=
  match staticForms? field with
  | some forms => if forms.admits form then return () else fail (.wrongForm field form) span
  | none =>
    if form = .member ∧ isFieldName field then return () else fail (.unknownField field) span

/-- A call, its arguments directly before it. -/
def call (callee : ValueId) (args : List ValueId) : Emit ValueId := do
  args.forM fun id => emit (.argument id)
  emitValue (.call callee)

/-- Numbers for the functions declared directly among the statements. -/
def hoist : List Node → Emit (List ValueId)
  | [] => return []
  | .function span name _ _ :: items => do
    requireFree name span
    let id ← allocate
    bind name id
    return id :: (← hoist items)
  | _ :: items => hoist items

/-- Opens a function body, its parameters bound. -/
def enter (params : List String) (span : Span) : Emit Unit := do
  emit (.enter (UInt32.ofNat params.length))
  let s ← get
  let scope ← parameters [] params (.startingAt s.scope.next)
  set { s with scope := { scope with last := none }, around := s.scope :: s.around }
where
  /-- Numbers for parameters; `seen` are those before them. -/
  parameters (seen : List String) : List String → Scope → Emit Scope
    | [], scope => return scope
    | name :: names, scope =>
      if name ∈ seen then fail (.alreadyDefined name) span
      else
        let (id, scope) := scope.allocate
        parameters (seen ++ [name]) names (scope.bind name id)

/-- Closes a function body. -/
def leave : Emit Unit := do
  modify fun s =>
    match s.around with
    | [] => s
    | scope :: around => { s with scope, around }
  emit .leave

/-- The value of a list of statements: that of its last one, under a number that was given out last.
`last` is the number of the last statement and whether it is a bare name. -/
def conclude (builtin : String → Option ValueId) (span : Span) (last : Option (ValueId × Bool)) :
    Emit ValueId := do
  match last with
  | none =>
    match builtin "unit" with
    | some unit => emitValue (.copy unit)
    | none => fail (.unknownValue "unit") span
  | some (id, isName) =>
    if isName ∨ (← get).scope.last ≠ some id then emitValue (.copy id) else return id

end Emit

namespace Node

mutual

/-- The number of a tree's value, its instructions emitted. -/
def emit (builtin : String → Option ValueId) : Node → Emit ValueId
  | .literal _ l => Emit.literal l
  | .ident span name => Emit.resolve builtin name span
  | .assign span names value => do Emit.assign names (← emit builtin value) span
  | .call _ callee args => do
    let callee ← emit builtin callee
    let args ← emitArgs builtin args
    Emit.call callee args
  | .select span value field form => do
    let value ← emit builtin value
    Emit.requireField field form span
    let name ← Emit.intern (.ofText field)
    Emit.emitValue (.field value name form)
  | .function span name _ _ => Emit.fail (.misplacedFunction name) span
  | .list span items => do Emit.conclude builtin span (← emitItems builtin items)

/-- The values of arguments in order. -/
def emitArgs (builtin : String → Option ValueId) : List Node → Emit (List ValueId)
  | [] => return []
  | arg :: args => do
    let id ← emit builtin arg
    return id :: (← emitArgs builtin args)

/-- Statements where no function can be declared; the last one's number. -/
def emitItems (builtin : String → Option ValueId) : List Node → Emit (Option (ValueId × Bool))
  | [] => return none
  | [item] => return some (← emit builtin item, item.isIdent)
  | item :: items => do
    let _ ← emit builtin item
    emitItems builtin items

end

mutual

/-- A statement where functions can be declared: a function, with the number it was given, or any
other statement. -/
def emitStatement (builtin : String → Option ValueId) (hoisted : List ValueId) :
    Node → Emit (ValueId × List ValueId)
  | .function span _ params body => do
    Emit.enter params span
    match body with
    | .list inner items => do
      let hoisted ← Emit.hoist items
      let _ ← Emit.conclude builtin inner (← emitStatements builtin hoisted items)
    | other => do
      let hoisted ← Emit.hoist [other]
      let (id, _) ← emitStatement builtin hoisted other
      let _ ← Emit.conclude builtin other.span (some (id, other.isIdent))
    Emit.leave
    match hoisted with
    | id :: hoisted => return (id, hoisted)
    | [] => Emit.fail .notAList span
  | item => return (← emit builtin item, hoisted)

/-- Statements where functions can be declared; the last one's number. -/
def emitStatements (builtin : String → Option ValueId) (hoisted : List ValueId) :
    List Node → Emit (Option (ValueId × Bool))
  | [] => return none
  | [item] => do
    let (id, _) ← emitStatement builtin hoisted item
    return some (id, item.isIdent)
  | item :: items => do
    let (_, hoisted) ← emitStatement builtin hoisted item
    emitStatements builtin hoisted items

end

/-- Compiles a program. Names that it does not define are built in. -/
def compile (builtin : String → Option ValueId) : Node → Except CompileError Code
  | .list span items => do
    let start : Emission := ⟨.startingAt 0, [], .empty, #[]⟩
    let program : Emit ValueId := do
      let hoisted ← Emit.hoist items
      Emit.conclude builtin span (← emitStatements builtin hoisted items)
    let (_, s) ← program.run start
    match s.pool.layout with
    | .ok constants => return ⟨.zero, constants, s.instructions.toList⟩
    | .error cause => .error ⟨cause, span⟩
  | other => .error ⟨.notAList, other.span⟩

end Node

end Dataflow
