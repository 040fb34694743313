import Dataflow.Decimal.Text
import Dataflow.Source.Node
import Dataflow.Text.Quoted

/-!
# Outlines of programs

`Node.outline` writes a tree as nested brackets, every node as `(kind@start..stop parts)`.
-/

namespace Dataflow

/-- A character of a string literal: quotes, backslashes and control characters are escaped. -/
def literalChar (c : Char) : String :=
  match c with
  | '"' => "\\\""
  | '\\' => "\\\\"
  | '\n' => "\\n"
  | '\r' => "\\r"
  | '\t' => "\\t"
  | '\x08' => "\\b"
  | '\x0c' => "\\f"
  | c =>
    if c.toNat < 32 then
      "\\u00" ++ String.ofList [hexChar (c.toNat / 16), hexChar (c.toNat % 16)]
    else toString c

/-- A string literal in quotes. -/
def literalText (s : String) : String := "\"" ++ String.join (s.toList.map literalChar) ++ "\""

/-- Names in brackets. -/
def nameList (names : List String) : String := "[" ++ String.intercalate " " names ++ "]"

namespace Literal

/-- The kind of a literal. -/
def kind : Literal → String
  | int _ => "int"
  | float _ => "float"
  | str _ => "str"

/-- A literal as text. -/
def outline : Literal → String
  | int n => toString n.toInt
  | float x => floatText x
  | str s => literalText s

end Literal

namespace Node

/-- The start of a node: its bracket, kind and span. -/
def opening (kind : String) (s : Span) : String := "(" ++ kind ++ "@" ++ s.text

mutual

/-- A tree in brackets, piece by piece, before other pieces. -/
def outlineBefore (rest : List String) : Node → List String
  | list s items => opening "list" s :: outlinesBefore (")" :: rest) items
  | assign s names value =>
    opening "assign" s :: " " :: nameList names :: " " :: outlineBefore (")" :: rest) value
  | call s callee args =>
    opening "call" s :: " " :: outlineBefore (outlinesBefore (")" :: rest) args) callee
  | select s value field form =>
    opening "select" s :: " " :: form.word :: " " :: field :: " "
      :: outlineBefore (")" :: rest) value
  | function s name params body =>
    opening "fn" s :: " " :: name :: " " :: nameList params :: " "
      :: outlineBefore (")" :: rest) body
  | ident s name => opening "id" s :: " " :: name :: ")" :: rest
  | literal s l => opening l.kind s :: " " :: l.outline :: ")" :: rest

/-- Trees in brackets, each after a space, before other pieces. -/
def outlinesBefore (rest : List String) : List Node → List String
  | [] => rest
  | n :: ns => " " :: outlineBefore (outlinesBefore rest ns) n

end

/-- A tree in brackets. -/
def outline (n : Node) : String := String.join (outlineBefore [] n)

end Node

end Dataflow
