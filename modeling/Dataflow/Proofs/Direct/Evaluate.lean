import Dataflow.Proofs.Compile.Scoping
import Dataflow.Proofs.Compile.Statements
import Dataflow.Run.Evaluate

/-!
# Evaluating trees

A program has a meaning without being compiled: its tree is evaluated in the order of its text. Names
stand for what they have been bound to; a function knows the names that were bound where it is
declared, and the functions of a body are bound before its first statement. The callee of a call comes
before its arguments, and these come from left to right. The value of a list is that of its last item,
and a list without items has the value of `unit`.

A function is made once, when the body that declares it is entered, and whatever is bound to it is this
function. Evaluations keep account of the calls that they make of functions that no text declares.

* `World`, `Evaluation`: the state of an evaluation, and computations on it;
* `Node.evaluate`, `evaluateStatements`, `Declaration.run`: expressions, statements and functions;
* `SourceHost.answer`, `Source.evaluate`: requests and programs.
-/

namespace Dataflow

/-- The numbers by which texts call functions: of every function declared in a body, in order, with
those of the functions inside it. -/
inductive Labels where
  | of (functions : List (ValueId × Labels))
  deriving Inhabited

/-- The functions of a body. -/
def Labels.functions : Labels → List (ValueId × Labels)
  | .of functions => functions

/-- What names stand for; those bound last come first. -/
abbrev Bindings := List (String × Value)

/-- A function that has been declared. -/
structure Declaration where
  params : List String
  body : Node
  labels : Labels
  /-- What is known where the function is declared. -/
  names : Bindings
  environment : Environment
  deriving Inhabited

/-- The state of an evaluation. -/
structure World where
  /-- For every activation the functions that have been declared in it so far. -/
  activations : Array (Array Declaration)
  identities : Nat
  printed : Array String
  loads : Array String
  deriving Inhabited

/-- A function that an activation has declared. -/
def World.declared? (w : World) (scope position : Nat) : Option Declaration :=
  w.activations[scope]?.bind (·[position]?)

/-- Calls of functions that no text declares, with their arguments. -/
abbrev Calls := List (Function × List Value)

/-- A computation on the state of an evaluation, and the calls that it makes. -/
def Evaluation (α : Type) : Type := World → Calls × EStateM.Result Stop World α

namespace Evaluation

variable {α β : Type}

/-- One computation after another. -/
def bind (x : Evaluation α) (f : α → Evaluation β) : Evaluation β := fun w =>
  match x w with
  | (calls, .ok a w') => (calls ++ (f a w').1, (f a w').2)
  | (calls, .error e w') => (calls, .error e w')

instance : Monad Evaluation where
  pure a w := ([], .ok a w)
  bind := bind

/-- A computation without calls. -/
def lift (x : EStateM Stop World α) : Evaluation α := fun w => ([], x w)

/-- Stops with an error. -/
def fail (e : RunError) : Evaluation α := lift (throw (.error e))

/-- A result as a computation. -/
def ofExcept : Except RunError α → Evaluation α
  | .ok a => pure a
  | .error e => fail e

/-- The result of a computation, be it a value or an error. -/
def attempt (x : Evaluation α) : Evaluation (Except RunError α) := fun w =>
  match x w with
  | (calls, .ok a w') => (calls, .ok (.ok a) w')
  | (calls, .error (.error e) w') => (calls, .ok (.error e) w')
  | (calls, .error .exhausted w') => (calls, .error .exhausted w')

/-- A computation whose errors are taken for others. -/
def mapError (f : RunError → RunError) (x : Evaluation α) : Evaluation α := fun w =>
  match x w with
  | (calls, .error (.error e) w') => (calls, .error (.error (f e)) w')
  | r => r

/-- Keeps account of a call. -/
def note (f : Function) (args : List Value) : Evaluation Unit := fun w => ([(f, args)], .ok () w)

/-- Numbers that nothing else has; the first one is given. -/
def reserve (count : Nat) : Evaluation Nat :=
  lift (modifyGet fun w => (w.identities, { w with identities := w.identities + count }))

/-- A number that nothing else has. -/
def fresh : Evaluation Nat := reserve 1

/-- Prints a text. -/
def print (text : String) : Evaluation Unit :=
  lift (modify fun w => { w with printed := w.printed.push text })

/-- Notes that a name is loaded. -/
def noteLoad (target : String) : Evaluation Unit :=
  lift (modify fun w => { w with loads := w.loads.push target })

/-- Does something without keeping what it prints. -/
def quietly (x : Evaluation α) : Evaluation α := fun w =>
  match x { w with printed := #[] } with
  | (calls, .ok a w') => (calls, .ok a { w' with printed := w.printed })
  | (calls, .error e w') => (calls, .error e { w' with printed := w.printed })

/-- A new activation, in which nothing has been declared. -/
def enter : Evaluation Nat :=
  lift (modifyGet fun w =>
    (w.activations.size, { w with activations := w.activations.push #[] }))

/-- Declares a function in an activation. -/
def declare (scope : Nat) (d : Declaration) : Evaluation Unit :=
  lift (modify fun w => { w with activations := w.activations.modify scope (·.push d) })

/-- A function that an activation has declared. -/
def declared? (scope position : Nat) : Evaluation (Option Declaration) :=
  lift (return (← get).declared? scope position)

end Evaluation

/-- Binds names to one value. -/
def Bindings.bind (names : Bindings) (bound : List String) (v : Value) : Bindings :=
  bound.foldl (fun names name => (name, v) :: names) names

/-- The value of a literal. Floats are taken by their bits. -/
def Literal.value : Literal → Value
  | .int n => .int n
  | .float x => .float (.ofBits x.toBits)
  | .str s => .str s

/-! ## Trees -/

/-- Evaluates a script at a depth of calls. -/
def Script.evaluate {α : Type} (answer : Request → Evaluation Value) (level : Nat) :
    Script α → Evaluation α
  | done a => pure a
  | fail e => Evaluation.fail e
  | ask r next => do (next (← (answer r).attempt)).evaluate answer level
  | print text next => do
    Evaluation.print text
    next.evaluate answer level
  | mint next => do (next (← Evaluation.fresh)).evaluate answer level
  | depth next => (next level).evaluate answer level

/-- Where trees are evaluated. -/
structure Scene where
  environment : Environment
  scope : Nat
  /-- How many calls of functions are open. -/
  depth : Nat

namespace Scene

/-- What a name stands for: what it was bound to, or something built in. -/
def resolve (p : Scene) (names : Bindings) (name : String) : Evaluation Value :=
  match names.lookup name with
  | some v => pure v
  | none =>
    match p.environment.entries.lookup name with
    | some v => pure v
    | none => Evaluation.fail (.unavailable 0)

/-- The value of items of which the last one is given. -/
def conclude (p : Scene) : Option Value → Evaluation Value
  | none => p.resolve [] "unit"
  | some last => pure last

end Scene

mutual

/-- Evaluates an expression. Bindings that it binds are known behind it. -/
def Node.evaluate (answer : Request → Evaluation Value) (p : Scene) :
    Node → Bindings → Evaluation (Value × Bindings)
  | .literal _ l, names => return (l.value, names)
  | .ident _ name, names => return (← p.resolve names name, names)
  | .assign _ bound value, names => do
    let (v, names) ← Node.evaluate answer p value names
    return (v, names.bind bound v)
  | .call _ callee args, names => do
    let (callee, names) ← Node.evaluate answer p callee names
    let (args, names) ← Node.evaluateAll answer p args names
    let v ← (Script.apply callee args).evaluate answer p.depth
    return (v, names)
  | .select _ value field form, names => do
    let (value, names) ← Node.evaluate answer p value names
    let v ← (value.select field form).evaluate answer p.depth
    return (v, names)
  | .list _ items, names => do
    let (values, names) ← Node.evaluateAll answer p items names
    return (← p.conclude values.getLast?, names)
  -- functions are declared by statements only
  | .function .., _ => Evaluation.fail (.unavailable 0)

/-- Evaluates expressions one after the other. -/
def Node.evaluateAll (answer : Request → Evaluation Value) (p : Scene) :
    List Node → Bindings → Evaluation (List Value × Bindings)
  | [], names => return ([], names)
  | item :: items, names => do
    let (v, names) ← Node.evaluate answer p item names
    let (vs, names) ← Node.evaluateAll answer p items names
    return (v :: vs, names)

end

/-- The functions that statements of an activation declare, of which the first has the given position:
their names, the functions, and what the functions inside them are called by. The identities start
with `first`. -/
def Node.hoisted (scope first : Nat) : Nat → List (ValueId × Labels) → List Node →
    List (String × Value × Labels)
  | _, _, [] => []
  | position, labels, .function _ name params _ :: items =>
    let (label, inner) := labels.headD default
    (name, .function (.closure (first + position)
      ⟨⟨0, .ofNat params.length, [], []⟩, position, scope, label⟩), inner) ::
      Node.hoisted scope first (position + 1) labels.tail items
  | position, labels, _ :: items => Node.hoisted scope first position labels items

/-- Evaluates the statements of a body and gives the last one's value. The functions that they declare
are given in order. -/
def Node.evaluateStatements (answer : Request → Evaluation Value) (p : Scene) :
    List (Value × Labels) → List Node → Bindings → Evaluation (Option Value)
  | _, [], _ => return none
  | (f, labels) :: functions, .function _ _ params body :: items, names => do
    Evaluation.declare p.scope ⟨params, body, labels, names, p.environment⟩
    let last ← Node.evaluateStatements answer p functions items names
    return some (last.getD f)
  | functions, item :: items, names => do
    let (v, names) ← Node.evaluate answer p item names
    let last ← Node.evaluateStatements answer p functions items names
    return some (last.getD v)

/-- Runs a function in a new activation. Its parameters and the functions declared in it are bound
before its first statement; the latter are made here, once. -/
def Declaration.run (answer : Request → Evaluation Value) (depth : Nat) (d : Declaration)
    (args : List Value) : Evaluation Value := do
  let scope ← Evaluation.enter
  let items := d.body.bodyItems
  let first ← Evaluation.reserve (Node.functionNames items).length
  let p : Scene := ⟨d.environment, scope, depth⟩
  let functions := Node.hoisted scope first 0 d.labels.functions items
  let names := (functions.map fun f => (f.1, f.2.1)).reverse ++ (d.params.zip args).reverse ++ d.names
  p.conclude (← Node.evaluateStatements answer p (functions.map Prod.snd) items names)

/-! ## Programs -/

/-- A program as it is written. -/
structure Source where
  root : Node
  labels : Labels
  environment : Environment
  deriving Inhabited

/-- Evaluates a program from the start. -/
def Source.evaluate (answer : Request → Evaluation Value) (s : Source) : Evaluation Value :=
  Declaration.run answer 0 ⟨[], s.root, s.labels, [], s.environment⟩ []

/-- What a loader says about a name. -/
inductive Sourced where
  | value (v : Value)
  | failed (message : String)
  /-- The request is never answered. -/
  | dropped
  /-- The value is that of a program, whose output may be left out. -/
  | source (s : Source) (quiet : Bool)

/-- What evaluations have from their surroundings. -/
structure SourceHost where
  options : RunOptions
  /-- What the functions of the host do. They see the options of the evaluation. -/
  functions : Array (RunOptions → List Value → Script Value)
  /-- What is loaded under a name, if anything can be loaded. -/
  loader? : Option (String → Sourced)

namespace SourceHost

/-- What a function of the host does. -/
def function (h : SourceHost) (number : Nat) (args : List Value) : Script Value :=
  h.functions.getD number (fun _ _ => .done .unit) h.options args

/-- What a native function does. -/
def scriptOf (h : SourceHost) (n : Native) (args : List Value) : Script Value :=
  match n.body with
  | .builtin b => b.script args
  | .host number => h.function number args

/-- Answers a request at a depth of calls. The first argument bounds how deeply requests may be
nested. -/
def answer (h : SourceHost) : Nat → Nat → Request → Evaluation Value
  | 0, _, _ => Evaluation.lift (throw .exhausted)
  | fuel + 1, depth, .call (.native n) args => do
    Evaluation.note (.native n) args
    Evaluation.ofExcept (n.signature.check n.name args)
    (h.scriptOf n args).evaluate (h.answer fuel depth) depth
  | fuel + 1, depth, .call (.method identity receiver m) args => do
    Evaluation.note (.method identity receiver m) args
    Evaluation.ofExcept (m.signature.check (Function.method identity receiver m).name args)
    (m.script receiver args).evaluate (h.answer fuel depth) depth
  | fuel + 1, depth, .call (.closure identity c) args =>
    if args.length = c.graph.params.toNat then
      if h.options.maxDepth < depth + 1 then
        Evaluation.fail (.tooDeep (depth + 1) h.options.maxDepth)
      else do
        match ← Evaluation.declared? c.scope c.unit with
        | some d => d.run (h.answer fuel (depth + 1)) (depth + 1) args
        | none => Evaluation.fail (.unavailable c.id)
    else Evaluation.fail (.wrongCount (Function.closure identity c).name
      (toString c.graph.params.toNat) args.length)
  | fuel + 1, _, .load target =>
    match h.loader? with
    | none => Evaluation.fail (.noLoader target)
    | some loader => do
      Evaluation.noteLoad target
      match loader target with
      | .value v => return v
      | .failed message => Evaluation.fail (.loadFailed target message)
      | .dropped => Evaluation.fail (.loadFailed target "loader dropped the request")
      | .source s quiet =>
        let run := s.evaluate (h.answer fuel 0)
        Evaluation.mapError (fun e => .loadFailed target e.message)
          (if quiet then Evaluation.quietly run else run)

end SourceHost

end Dataflow
