import Dataflow.Text.Letters
import Dataflow.Value.Kind

/-!
# Built-in functions and methods

The names, forms and signatures of everything that is built in. What the functions do is said in
`Dataflow.Run.Library`.

* `Method`: the methods of values, by the type they belong to;
* `Method.universal`: the methods of every value;
* `Builtin`: the functions that programs find by name;
* `staticForms?`: the forms of a field that can be known before a program runs.
-/

namespace Dataflow

/-- The methods of values. -/
inductive Method where
  | add
  | sub
  | mul
  | div
  | rem
  | lt
  | gt
  | le
  | ge
  | not
  | and
  | or
  | concat
  | textLength
  | tupleLength
  | tupleGet
  | text
  | equal
  | differ
  deriving DecidableEq, Repr, Inhabited

namespace Method

/-- The name of a method. -/
def name : Method → String
  | add | concat => "+"
  | sub => "-"
  | mul => "*"
  | div => "/"
  | rem => "%"
  | lt => "<"
  | gt => ">"
  | le => "<="
  | ge => ">="
  | not => "!"
  | and => "&&"
  | or => "||"
  | textLength | tupleLength => "len"
  | tupleGet => "get"
  | text => "str"
  | equal => "=="
  | differ => "!="

/-- The forms of a method. -/
def forms : Method → Forms
  | add | mul | div | rem | lt | gt | le | ge | and | or | concat | equal | differ => .onlyBinary
  | sub => ⟨false, true, true⟩
  | not => .onlyUnary
  | textLength | tupleLength | tupleGet | text => .onlyMember

/-- What a method takes besides its own value. -/
def signature : Method → Signature
  | add | mul | div | rem | lt | gt | le | ge => .exact [.number]
  | sub => .optional [.number] 0
  | not | textLength | tupleLength | text => .exact []
  | and | or => .exact [.bool]
  | concat => .exact [.string]
  | tupleGet => .exact [.int]
  | equal | differ => .exact [.any]

/-- The methods of numbers. -/
def ofNumbers : List Method := [add, sub, mul, div, rem, lt, gt, le, ge]

/-- The methods of truth values. -/
def ofBools : List Method := [not, and, or]

/-- The methods of texts. -/
def ofTexts : List Method := [concat, textLength]

/-- The methods of tuples. -/
def ofTuples : List Method := [tupleLength, tupleGet]

/-- The methods of every value. -/
def universal : List Method := [text, equal, differ]

/-- The methods of a type, the universal ones left out. -/
def ofType : ValueType → List Method
  | .int | .float => ofNumbers
  | .bool => ofBools
  | .string => ofTexts
  | .tuple => ofTuples
  | .unit | .function | .struct | .library => []

/-- The method with a name among others. -/
def find? (methods : List Method) (name : String) : Option Method :=
  methods.find? fun m => m.name == name

end Method

/-- The functions that programs find by name, on their own or in the `math` library. -/
inductive Builtin where
  | print
  | println
  | choose
  | struct
  | tuple
  | load
  | sqrt
  | abs
  | floor
  | pow
  | min
  | max
  deriving DecidableEq, Repr, Inhabited

namespace Builtin

/-- The name of a function. -/
def name : Builtin → String
  | print => "print"
  | println => "println"
  | choose => "if"
  | struct => "struct"
  | tuple => "tuple"
  | load => "import"
  | sqrt => "sqrt"
  | abs => "abs"
  | floor => "floor"
  | pow => "pow"
  | min => "min"
  | max => "max"

/-- What a function takes. -/
def signature : Builtin → Signature
  | print | println | tuple => .variadic .any
  | choose => .exact [.bool, .function, .function]
  | struct => .exact [.function]
  | load => .exact [.string]
  | sqrt | abs | floor => .exact [.number]
  | pow | min | max => .exact [.number, .number]

end Builtin

/-! ## Fields that are known before a program runs -/

/-- The forms of a field that is built in for some type or for all of them. Methods of one name have
the same forms for every type. -/
def staticForms? (name : String) : Option Forms :=
  (Method.find? (Method.ofNumbers ++ Method.ofBools ++ Method.ofTexts ++ Method.ofTuples
    ++ Method.universal) name).map Method.forms

/-- Whether a name could be a field that a program defines. -/
def isFieldName (name : String) : Bool :=
  match name.toList with
  | [] => false
  | c :: cs => (c == '_' || isAlphabetic c) && cs.all fun c => c == '_' || isAlphanumeric c

end Dataflow
