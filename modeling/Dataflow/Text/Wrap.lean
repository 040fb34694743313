import Dataflow.Text.Cells
import Dataflow.Text.Letters
import Dataflow.Text.LineBreak

/-!
# Wrapped text

A text is laid out in lines of limited width. Each line takes as many words as fit; a word may also
be divided behind a hyphen between letters, and a word that is too long for any line is divided
where a line is full.

* `Fragment`: what is never divided, and the spaces behind it;
* `fragments`: the fragments of a line;
* `wrapped`: the lines of a text.
-/

namespace Dataflow

/-- Characters that stay together, and how many spaces stand behind them. -/
structure Fragment where
  chars : List Char
  spaces : Nat
  deriving DecidableEq, Repr, Inhabited

/-- How many cells a character takes in running text, where control characters take none. -/
def textCells (c : Char) : Nat :=
  if c.toNat < 32 ∨ 127 ≤ c.toNat ∧ c.toNat < 160 then 0 else cells c

/-- How many cells characters take. -/
def textWidth (cs : List Char) : Nat := cs.foldl (fun n c => n + textCells c) 0

namespace Fragment

/-- How many cells a fragment takes, the spaces left out. -/
def width (f : Fragment) : Nat := textWidth f.chars

/-- A fragment with its spaces. -/
def text (f : Fragment) : List Char := f.chars ++ List.replicate f.spaces ' '

/-- A word: what stands before the spaces at its end. -/
def ofWord (word : List Char) : Fragment :=
  let chars := (word.reverse.dropWhile (· = ' ')).reverse
  ⟨chars, word.length - chars.length⟩

/-- Divides a fragment, the spaces staying with its last part. -/
def divide (f : Fragment) (parts : List (List Char)) : List Fragment :=
  match parts.reverse with
  | [] => [f]
  | last :: before => before.reverse.map (⟨·, 0⟩) ++ [⟨last, f.spaces⟩]

end Fragment

/-- Whether a character is a hyphen, visible or not. -/
def isHyphen (c : Char) : Bool := c = '-' || c.toNat = 0xad

/-- Joins parts that follow a hyphen with those before them. -/
def rejoin : List (List Char) → List (List Char)
  | part :: next :: parts =>
    if part.getLast?.any isHyphen then rejoin ((part ++ next) :: parts)
    else part :: rejoin (next :: parts)
  | parts => parts
termination_by parts => parts.length

/-- Joins the last two parts. -/
def joinLastTwo : List (List Char) → List (List Char)
  | [a, b] => [a ++ b]
  | part :: parts => part :: joinLastTwo parts
  | [] => []

/-- The words of a line. Breaks behind hyphens are left to `atHyphens`, and if the line ends with
one, its last two words count as one. -/
def lineWords (line : List Char) : List (List Char) :=
  let parts := rejoin (lineParts line)
  if line.getLast?.any isHyphen then joinLastTwo parts else parts

/-- Divides a word behind each hyphen that stands between letters or digits. The characters in
`part`, in reverse order, belong to the current part. -/
def atHyphensFrom (part : List Char) : List Char → List (List Char)
  | '-' :: c :: cs =>
    if part.head?.any isAlphanumeric && isAlphanumeric c then
      ('-' :: part).reverse :: atHyphensFrom [] (c :: cs)
    else atHyphensFrom ('-' :: part) (c :: cs)
  | c :: cs => atHyphensFrom (c :: part) cs
  | [] => [part.reverse]

/-- Divides a word behind each hyphen that stands between letters or digits. -/
def atHyphens (word : List Char) : List (List Char) := atHyphensFrom [] word

/-- Divides characters where `limit` cells are full. The characters in `part`, in reverse order,
take `used` cells. -/
def atWidthFrom (limit : Nat) (part : List Char) (used : Nat) : List Char → List (List Char)
  | [] => [part.reverse]
  | c :: cs =>
    if 0 < used ∧ limit < used + textCells c then
      part.reverse :: atWidthFrom limit [c] (textCells c) cs
    else atWidthFrom limit (c :: part) (used + textCells c) cs

/-- Divides a fragment that is wider than the limit. -/
def Fragment.fit (limit : Nat) (f : Fragment) : List Fragment :=
  if limit < f.width then f.divide (atWidthFrom limit [] 0 f.chars) else [f]

/-- The fragments of a line, none of them wider than the limit. -/
def fragments (limit : Nat) (line : List Char) : List Fragment :=
  (lineWords line).flatMap fun word =>
    let f := Fragment.ofWord word
    (f.divide (atHyphens f.chars)).flatMap (Fragment.fit limit)

/-- The characters of a line, the spaces at its end left out. -/
def filledLine (fs : List Fragment) : List Char :=
  match fs.reverse with
  | [] => []
  | last :: before => before.reverse.flatMap Fragment.text ++ last.chars

/-- Fills lines with fragments. Those in `line`, in reverse order, take `used` cells. -/
def filledFrom (limit : Nat) (line : List Fragment) (used : Nat) :
    List Fragment → List (List Char)
  | [] => [filledLine line.reverse]
  | f :: fs =>
    if limit < used + f.width ∧ line ≠ [] then
      filledLine line.reverse :: filledFrom limit [f] (f.width + f.spaces) fs
    else filledFrom limit (f :: line) (used + f.width + f.spaces) fs

/-- The lines of a text, none wider than the limit. A line of the text gives at least one line. -/
def wrapped (limit : Nat) (text : String) : List String :=
  (text.splitOn "\n").flatMap fun line =>
    (filledFrom limit [] 0 (fragments limit line.toList)).map String.ofList

end Dataflow
