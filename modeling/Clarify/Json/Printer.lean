import Clarify.Bytes.Hex
import Clarify.Decimal.Shortest

/-!
# Printing JSON

A printed value stands on several lines, two blanks deeper for each level, with empty arrays and
objects closed at once. Text is written as it is, apart from quotes, backslashes and control
characters.
-/

namespace Clarify.Json

/-- A value to be printed. -/
inductive Output where
  | null
  | bool (value : Bool)
  | nat (value : Nat)
  | float (value : Float)
  | text (value : String)
  | list (items : List Output)
  | record (members : List (String × Output))

namespace Printer

/-- Doubles have a point unless they reach `10 ^ 16` or stay below `10 ^ -5`; those have an
exponent with its sign. -/
def layout : Decimal.Layout := { wholeDigits := 16, leadingZeros := 4, positiveSign := "+" }

/-- A double, or `null` where it is no number. -/
def float (x : Float) : String := (Decimal.shortest? layout x).getD "null"

/-- A character inside quotes. -/
def escaped (c : Char) : String :=
  match c with
  | '"' => "\\\""
  | '\\' => "\\\\"
  | '\n' => "\\n"
  | '\r' => "\\r"
  | '\t' => "\\t"
  | '\x08' => "\\b"
  | '\x0c' => "\\f"
  | c => if c.toNat < 0x20 then "\\u" ++ Hex.ofNat 4 c.toNat else c.toString

/-- A text in quotes. -/
def quoted (text : String) : String :=
  text.foldl (fun out c => out ++ escaped c) "\"" ++ "\""

/-- A new line at the given depth. -/
def newLine (depth : Nat) : String := "\n" ++ String.ofList (List.replicate (2 * depth) ' ')

mutual

/-- A value whose first line is at the given depth. -/
def value (depth : Nat) : Output → String
  | .null => "null"
  | .bool b => if b then "true" else "false"
  | .nat n => toString n
  | .float x => float x
  | .text s => quoted s
  | .list [] => "[]"
  | .list (item :: rest) =>
    "[" ++ newLine (depth + 1) ++ value (depth + 1) item ++ items (depth + 1) rest
      ++ newLine depth ++ "]"
  | .record [] => "\x7b\x7d"
  | .record (member :: rest) =>
    "\x7b" ++ newLine (depth + 1) ++ quoted member.1 ++ ": " ++ value (depth + 1) member.2
      ++ members (depth + 1) rest ++ newLine depth ++ "\x7d"

/-- Items behind the first one. -/
def items (depth : Nat) : List Output → String
  | [] => ""
  | item :: rest => "," ++ newLine depth ++ value depth item ++ items depth rest

/-- Members behind the first one. -/
def members (depth : Nat) : List (String × Output) → String
  | [] => ""
  | member :: rest =>
    "," ++ newLine depth ++ quoted member.1 ++ ": " ++ value depth member.2 ++ members depth rest

end

end Printer

/-- The printed form of a value. -/
def Output.pretty (o : Output) : String := Printer.value 0 o

end Clarify.Json
