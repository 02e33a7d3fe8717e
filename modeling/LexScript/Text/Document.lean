import LexScript.Number.Text
import LexScript.Text.Quoted

/-!
# Documents

A document is a tree of named and listed parts, the form in which programs are handed to
other tools. It is written with each part on a line of its own, two spaces further in than
the part that holds it. A number that is not finite has no written form and is written as
nothing.

## Main definitions

* `Document` : a tree of parts.
* `Document.text` : its written form.
-/

namespace LexScript

/-- A tree of named and listed parts. -/
inductive Document where
  | nothing
  | count (n : Nat)
  | number (x : Number)
  | text (s : String)
  | list (items : List Document)
  | fields (parts : List (String × Document))

namespace Document

/-- A document with one named part. -/
def tagged (name : String) (part : Document) : Document := .fields [(name, part)]

/-- A new line at the given depth. -/
def newline (depth : Nat) : String := "\n" ++ String.ofList (List.replicate (2 * depth) ' ')

mutual

/-- The written form of a document whose first line is already indented to `depth`. -/
def write (depth : Nat) : Document → String
  | .nothing => "null"
  | .count n => n.repr
  | .number x => if x.isFinite then x.exchangeText else "null"
  | .text s => Text.exchangeQuote s
  | .list [] => "[]"
  | .list (d :: ds) =>
    "[" ++ newline (depth + 1) ++ d.write (depth + 1) ++ writeItems (depth + 1) ds ++
      newline depth ++ "]"
  | .fields [] => "\x7b\x7d"
  | .fields ((name, d) :: parts) =>
    "\x7b" ++ newline (depth + 1) ++ Text.exchangeQuote name ++ ": " ++ d.write (depth + 1) ++
      writeParts (depth + 1) parts ++ newline depth ++ "\x7d"

/-- Further items, each behind a comma and on a line of its own. -/
def writeItems (depth : Nat) : List Document → String
  | [] => ""
  | d :: ds => "," ++ newline depth ++ d.write depth ++ writeItems depth ds

/-- Further named parts, each behind a comma and on a line of its own. -/
def writeParts (depth : Nat) : List (String × Document) → String
  | [] => ""
  | (name, d) :: parts =>
    "," ++ newline depth ++ Text.exchangeQuote name ++ ": " ++ d.write depth ++
      writeParts depth parts

end

end Document

end LexScript
