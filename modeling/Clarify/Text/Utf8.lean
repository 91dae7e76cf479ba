import Clarify.Bytes

/-!
# UTF-8

Strict reading of UTF-8. A byte string that is no text is refused at the first character that
cannot be read, and the refusal tells how many bytes could still have been the start of one.
-/

namespace Clarify.Utf8

/-- Where and how a byte string stops being UTF-8. -/
inductive Fault where
  /-- The `size` bytes from `offset` on begin no character. -/
  | invalid (offset size : Nat)
  /-- The bytes from `offset` on are the beginning of a character that does not end. -/
  | incomplete (offset : Nat)
deriving Repr, DecidableEq

/-- The wording of a fault. -/
def Fault.message : Fault → String
  | .invalid offset size => s!"invalid utf-8 sequence of {size} bytes from index {offset}"
  | .incomplete offset => s!"incomplete utf-8 byte sequence from index {offset}"

/-- What a leading byte announces: how many bytes follow, the range of the first of them, and the
bits of the character that the leading byte holds. -/
structure Lead where
  tails : Nat
  low : Nat
  high : Nat
  bits : Nat

/-- What a byte announces as the first of a character, if it can be one. -/
def lead? (b : UInt8) : Option Lead :=
  let n := b.toNat
  if n < 0x80 then some ⟨0, 0x80, 0xBF, n⟩
  else if n < 0xC2 then none
  else if n < 0xE0 then some ⟨1, 0x80, 0xBF, n - 0xC0⟩
  else if n = 0xE0 then some ⟨2, 0xA0, 0xBF, 0⟩
  else if n = 0xED then some ⟨2, 0x80, 0x9F, 0xD⟩
  else if n < 0xF0 then some ⟨2, 0x80, 0xBF, n - 0xE0⟩
  else if n = 0xF0 then some ⟨3, 0x90, 0xBF, 0⟩
  else if n < 0xF4 then some ⟨3, 0x80, 0xBF, n - 0xF0⟩
  else if n = 0xF4 then some ⟨3, 0x80, 0x8F, 4⟩
  else none

/-- How reading one character ends. -/
inductive Step where
  | char (c : Char)
  /-- So many bytes could still have begun a character. -/
  | invalid (size : Nat)
  | incomplete

/-- Reads the `tails` bytes that a character still needs; `seen` bytes of it came before, and the
next one lies between `low` and `high`. -/
def finish (seen tails low high bits : Nat) (rest : Bytes) : Step :=
  match tails, rest with
  | 0, _ => .char (Char.ofNat bits)
  | _ + 1, [] => .incomplete
  | tails + 1, b :: rest =>
    if low ≤ b.toNat ∧ b.toNat ≤ high then
      finish (seen + 1) tails 0x80 0xBF (bits * 0x40 + (b.toNat - 0x80)) rest
    else .invalid seen

/-- Reads the characters of a byte string behind the reversed `acc`; `offset` bytes came before. -/
def decodeOnto (acc : List Char) (offset : Nat) (bytes : Bytes) : Except Fault String :=
  match bytes with
  | [] => .ok (String.ofList acc.reverse)
  | b :: rest =>
    match lead? b with
    | none => .error (.invalid offset 1)
    | some lead =>
      match finish 1 lead.tails lead.low lead.high lead.bits rest with
      | .char c => decodeOnto (c :: acc) (offset + 1 + lead.tails) (rest.drop lead.tails)
      | .invalid size => .error (.invalid offset size)
      | .incomplete => .error (.incomplete offset)
termination_by bytes.length
decreasing_by simp only [List.length_drop, List.length_cons]; omega

/-- The text that a byte string encodes. -/
def decode (bytes : Bytes) : Except Fault String := decodeOnto [] 0 bytes

/-- Reads the characters of a byte string behind the reversed `acc`, with U+FFFD for what begins
none. -/
def lossyOnto (acc : List Char) (bytes : Bytes) : List Char :=
  match bytes with
  | [] => acc.reverse
  | b :: rest =>
    match lead? b with
    | none => lossyOnto ('\uFFFD' :: acc) rest
    | some lead =>
      match finish 1 lead.tails lead.low lead.high lead.bits rest with
      | .char c => lossyOnto (c :: acc) (rest.drop lead.tails)
      | .invalid size => lossyOnto ('\uFFFD' :: acc) (rest.drop (size - 1))
      | .incomplete => ('\uFFFD' :: acc).reverse
termination_by bytes.length
decreasing_by all_goals simp only [List.length_drop, List.length_cons]; omega

/-- The text of a byte string, with U+FFFD for what is malformed. -/
def decodeLossy (bytes : Bytes) : String := String.ofList (lossyOnto [] bytes)

/-- The bytes of a text. -/
def encode (text : String) : Bytes := text.toUTF8.data.toList

end Clarify.Utf8
