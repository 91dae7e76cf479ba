import Clarify.Text.Visible

/-!
# Quoted text

A text as a log line shows it: in double quotes, with a backslash in front of quotes and
backslashes, short escapes for the usual controls, and the code point of every other character
that could not be seen by itself.
-/

namespace Clarify.Text

/-- The code point of a character, in lower-case hexadecimal digits. -/
def codePoint (c : Char) : String :=
  "\\u\x7b" ++ String.ofList (Nat.toDigits 16 c.toNat) ++ "\x7d"

/-- A character inside quotes. -/
def quotedChar (c : Char) : String :=
  match c with
  | '\x00' => "\\0"
  | '\t' => "\\t"
  | '\n' => "\\n"
  | '\r' => "\\r"
  | '"' => "\\\""
  | '\\' => "\\\\"
  | c =>
    if ' ' ≤ c ∧ c ≤ '~' then c.toString
    else if combining.contains c || invisible.contains c then codePoint c
    else c.toString

/-- A text in quotes. -/
def quoted (text : String) : String :=
  text.foldl (fun out c => out ++ quotedChar c) "\"" ++ "\""

end Clarify.Text
