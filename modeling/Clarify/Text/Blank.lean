import Clarify.Text.CharSet

/-!
# Blanks

The white space of the Unicode standard, and text without it at its ends.
-/

namespace Clarify.Text

/-- The characters that count as white space. -/
def blanks : CharSet where
  edges := [
    0x9, 0xe, 0x20, 0x21, 0x85, 0x86, 0xa0, 0xa1, 0x1680, 0x1681, 0x2000, 0x200b, 0x2028, 0x202a,
    0x202f, 0x2030, 0x205f, 0x2060, 0x3000, 0x3001]

/-- A text without the blanks at its ends. -/
def trimmed (text : String) : String :=
  let front := text.toList.dropWhile blanks.contains
  String.ofList (front.reverse.dropWhile blanks.contains).reverse

end Clarify.Text
