import Dataflow.Code.Instruction

/-!
# Block graphs

The instructions of one scope fall into blocks, each of which produces one value: a function with
its own graph, or an instruction with the arguments that stand before it. Blocks are linked by what
they read from each other.

* `Level`: the blocks of a scope and, for each of them, the blocks that wait for it;
* `Block`, `Graph`: the nesting of levels;
* `Graph.listing`: a graph as text.
-/

namespace Dataflow

/-- The blocks of one scope. Block `i` produces the value `first + params + i`, functions come
first, and `dependents` lists for every block the blocks that wait for it. -/
structure Level (β : Type) where
  first : ValueId
  params : UInt32
  blocks : List β
  dependents : List (List Nat)
  deriving Inhabited

/-- What produces a value: instructions, the last of which produces it, or a function body. -/
inductive Block where
  | steps (id : ValueId) (instructions : List Instruction)
  | function (id : ValueId) (body : Level Block)
  deriving Inhabited

/-- The blocks of a scope. -/
abbrev Graph := Level Block

/-- The number of the value a block produces. -/
def Block.id : Block → ValueId
  | steps id _ | function id _ => id

namespace Level

variable {β : Type}

/-- The first value number after the parameters. Of a level that was built this sum is in the range of
the numbers, since building has made it before. -/
def base (g : Level β) : ValueId := g.first + g.params.toInt32

/-- How many values a scope for this level holds. -/
def slotCount (g : Level β) : Nat := g.params.toNat + g.blocks.length

/-- Whether a value number is one of the parameters. -/
def isParameter (g : Level β) (id : ValueId) : Bool := g.first ≤ id && id < g.base

/-- The blocks that wait for block `i`. -/
def waiting (g : Level β) (i : Nat) : List Nat := g.dependents.getD i []

/-- The blocks that others wait for, each with those that do. -/
def edges (g : Level β) : List (Nat × List Nat) :=
  (g.dependents.zipIdx.map fun (waiting, i) => (i, waiting)).filter fun e => !e.2.isEmpty

end Level

namespace Graph

/-- The number of the value of the last block, which is the value of the graph. -/
def result? (g : Graph) : Option ValueId := g.blocks.getLast?.map Block.id

end Graph

/-! ## Listings -/

/-- Blanks. -/
def indentation (n : Nat) : String := String.ofList (List.replicate n ' ')

/-- Numbers in brackets. -/
def numberList (ns : List Nat) : String :=
  "[" ++ String.intercalate ", " (ns.map fun n => toString n) ++ "]"

mutual

/-- A block as text, with `indent` blanks before the end of a function. -/
def Block.listing (indent : Nat) : Block → String
  | .steps _ instructions => String.intercalate "; " (instructions.map Instruction.listing)
  | .function _ ⟨first, params, blocks, dependents⟩ =>
    "graph(first: " ++ first.text ++ ", params: " ++ toString params.toNat ++ ") \x7b\n"
      ++ String.join (Block.listings (indent + 2) 0 dependents blocks) ++ indentation indent
      ++ "\x7d"

/-- The lines of blocks, the first of them block `i`; the lists of blocks that wait for them start
with that of block `i`. -/
def Block.listings (indent i : Nat) (dependents : List (List Nat)) : List Block → List String
  | [] => []
  | b :: bs =>
    let waiting := dependents.headD []
    (indentation indent ++ "[" ++ toString i ++ "] " ++ b.id.text ++ " = "
      ++ Block.listing indent b
      ++ (if waiting.isEmpty then "" else "  -> " ++ numberList waiting) ++ "\n")
      :: Block.listings indent (i + 1) dependents.tail bs

end

/-- A graph as text. -/
def Graph.listing (g : Graph) : String := Block.listing 0 (.function 0 g)

mutual

/-- The levels of a block: its own, if it is a function, and those inside it. -/
def Block.levels : Block → List Graph
  | .steps _ _ => []
  | .function _ ⟨first, params, blocks, dependents⟩ =>
    ⟨first, params, blocks, dependents⟩ :: Block.allLevels blocks

/-- The levels of blocks in order. -/
def Block.allLevels : List Block → List Graph
  | [] => []
  | b :: bs => Block.levels b ++ Block.allLevels bs

end

/-- All levels of a graph, each before the levels inside it. -/
def Graph.levels (g : Graph) : List Graph := Block.levels (.function 0 g)

end Dataflow
