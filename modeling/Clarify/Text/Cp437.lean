import Clarify.Bytes

/-!
# Code page 437

The encoding of entry names in archives that do not say otherwise: ASCII, and a table for the
other half of the bytes.
-/

namespace Clarify.Cp437

/-- The characters for the bytes from 128 on. -/
def upperHalf : Array Char :=
  ("ÇüéâäàåçêëèïîìÄÅÉæÆôöòûùÿÖÜ¢£¥₧ƒ"
    ++ "áíóúñÑªº¿⌐¬½¼¡«»░▒▓│┤╡╢╖╕╣║╗╝╜╛┐"
    ++ "└┴┬├─┼╞╟╚╔╩╦╠═╬╧╨╤╥╙╘╒╓╫╪┘┌█▄▌▐▀"
    ++ "αßΓπΣσµτΦΘΩδ∞φε∩≡±≥≤⌠⌡÷≈°∙·√ⁿ²■\u00a0").toList.toArray

/-- The character of a byte. -/
def char (b : UInt8) : Char :=
  if b < 128 then Char.ofNat b.toNat else upperHalf.getD (b.toNat - 128) '?'

/-- The text of a byte string. -/
def decode (bytes : Bytes) : String := String.ofList (bytes.map char)

end Clarify.Cp437
