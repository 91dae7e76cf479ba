import Clarify.Bytes

/-!
# UTF-16 code units

Text as 16-bit units: a character outside the basic plane is a pair of surrogates, a high one
before a low one. A sequence of units may hold surrogates that stand alone; such a sequence is
no text, and the lossy reading shows each of them as U+FFFD.

Results:
* `ofChars_cons`: the units of a text are those of its characters, one after the other.
-/

namespace Clarify.Utf16

/-- Whether a unit is the first half of a pair. -/
def isHigh (u : UInt16) : Bool := 0xD800 ≤ u && u < 0xDC00

/-- Whether a unit is the second half of a pair. -/
def isLow (u : UInt16) : Bool := 0xDC00 ≤ u && u < 0xE000

/-- The units of one character. -/
def ofChar (c : Char) : List UInt16 :=
  let n := c.toNat
  if n < 0x10000 then [UInt16.ofNat n]
  else
    [UInt16.ofNat (0xD800 + (n - 0x10000) / 0x400),
      UInt16.ofNat (0xDC00 + (n - 0x10000) % 0x400)]

/-- The units of a row of characters. -/
def ofChars (chars : List Char) : List UInt16 := chars.flatMap ofChar

/-- The units of a text. -/
def ofString (text : String) : List UInt16 := ofChars text.toList

/-- The character that a high and a low surrogate stand for. -/
def ofPair (hi lo : UInt16) : Char :=
  Char.ofNat (0x10000 + (hi.toNat - 0xD800) * 0x400 + (lo.toNat - 0xDC00))

/-- What is read at the front of a row of units: a character, or a surrogate that stands alone. -/
inductive Item where
  | char (c : Char)
  | lone (u : UInt16)

/-- The items of a row of units, behind the reversed `acc`. -/
def itemsOnto (acc : List Item) : List UInt16 → List Item
  | [] => acc.reverse
  | u :: rest =>
    if isHigh u then
      match rest with
      | v :: rest' =>
        if isLow v then itemsOnto (.char (ofPair u v) :: acc) rest'
        else itemsOnto (.lone u :: acc) (v :: rest')
      | [] => itemsOnto (.lone u :: acc) []
    else if isLow u then itemsOnto (.lone u :: acc) rest
    else itemsOnto (.char (Char.ofNat u.toNat) :: acc) rest
termination_by units => units.length

/-- The characters and lone surrogates of a row of units, in order. -/
def items (units : List UInt16) : List Item := itemsOnto [] units

/-- The character of an item, U+FFFD for a lone surrogate. -/
def Item.lossy : Item → Char
  | .char c => c
  | .lone _ => '\uFFFD'

/-- The character of an item, if it is one. -/
def Item.char? : Item → Option Char
  | .char c => some c
  | .lone _ => none

/-- The text of a row of units, with U+FFFD for each surrogate that stands alone. -/
def decodeLossy (units : List UInt16) : String :=
  String.ofList ((items units).map Item.lossy)

/-- The text of a row of units, if no surrogate stands alone. -/
def decode? (units : List UInt16) : Option String :=
  ((items units).mapM Item.char?).map String.ofList

theorem ofChars_cons (c : Char) (rest : List Char) :
    ofChars (c :: rest) = ofChar c ++ ofChars rest := rfl

end Clarify.Utf16
