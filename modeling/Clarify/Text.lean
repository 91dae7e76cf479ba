/-!
# Pieces of text

Finding one text inside another, and splitting a text into lines.
-/

namespace Clarify.Text

/-- Whether a row of characters occurs in another one. -/
def occursIn (part : List Char) : List Char → Bool
  | [] => part.isEmpty
  | c :: rest => part.isPrefixOf (c :: rest) || occursIn part rest

/-- Whether a text contains another one. -/
def contains (text part : String) : Bool := occursIn part.toList text.toList

/-- A finished line, given in reverse: a carriage return at its end does not belong to it. -/
def lineOf (reversed : List Char) : String :=
  match reversed with
  | '\r' :: rest => String.ofList rest.reverse
  | all => String.ofList all.reverse

/-- The lines of a text behind the reversed `line` and the reversed `done`. What stands behind the
last newline is a line of its own unless there is nothing. -/
def linesOnto (done : List String) (line : List Char) : List Char → List String
  | [] =>
    if line.isEmpty then done.reverse else (String.ofList line.reverse :: done).reverse
  | c :: rest =>
    if c = '\n' then linesOnto (lineOf line :: done) [] rest else linesOnto done (c :: line) rest

/-- The lines of a text. -/
def lines (text : String) : List String := linesOnto [] [] text.toList

end Clarify.Text
