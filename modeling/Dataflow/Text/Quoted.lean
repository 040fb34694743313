import Dataflow.Text.Unprintable

/-!
# Quoted texts

A text in double quotes in which every character can be seen: quotes and backslashes are escaped,
and a character without an appearance of its own is written by its number.

* `quoted`: the quoted form;
* `byteList`: bytes in brackets;
* `hexText`: bytes in hexadecimal.
-/

namespace Dataflow

/-- The character of a hexadecimal digit below 16. -/
def hexChar (n : Nat) : Char := if n < 10 then Char.ofNat (48 + n) else Char.ofNat (87 + n)

/-- A number in hexadecimal, without leading zeros. -/
def hexNumber (n : Nat) : String := String.ofList (Nat.toDigits 16 n)

/-- One character of a quoted text. -/
def quotedChar (c : Char) : String :=
  match c with
  | '"' => "\\\""
  | '\\' => "\\\\"
  | '\t' => "\\t"
  | '\r' => "\\r"
  | '\n' => "\\n"
  | c =>
    if c.toNat = 0 then "\\0"
    else if isUnprintable c then "\\u\x7b" ++ hexNumber c.toNat ++ "\x7d"
    else toString c

/-- A text in quotes. -/
def quoted (s : String) : String := "\"" ++ String.join (s.toList.map quotedChar) ++ "\""

/-- Bytes as numbers in brackets. -/
def byteList (bytes : List UInt8) : String :=
  "[" ++ String.intercalate ", " (bytes.map fun b => toString b.toNat) ++ "]"

/-- Two hexadecimal digits for every byte. -/
def hexText (bytes : List UInt8) : String :=
  String.ofList (bytes.flatMap fun b => [hexChar (b.toNat / 16), hexChar (b.toNat % 16)])

end Dataflow
