import Clarify.Bytes.Base64
import Clarify.Text.Utf16
import Clarify.Text.Utf8

/-!
# Decoding rules

The few ways in which a helper method may turn an encoded literal back into plain text. A literal
is a row of UTF-16 units.

Results:
* `map_xor_map_xor`: a row of units under a key, put under the key again, is the row itself.
-/

namespace Clarify

/-- A way to encode literals. -/
inductive Decoding where
  /-- Literals are plain already. -/
  | identity
  | base64 (alphabet : Base64.Alphabet)
  /-- Base64 of bytes that are combined with a key each. -/
  | base64Xor (alphabet : Base64.Alphabet) (key : UInt8)
  /-- UTF-16 units that are combined with a key each. -/
  | charXor (key : UInt16)
  /-- UTF-8 bytes that are combined with a key each. -/
  | byteXor (key : UInt8)
deriving Repr, DecidableEq

/-- Why a literal cannot be decoded. -/
inductive DecodeFault where
  /-- A row of units holds half of a surrogate pair. -/
  | loneSurrogate
  | base64 (fault : Base64.Fault)
  | utf8 (fault : Utf8.Fault)
deriving Repr, DecidableEq

/-- The wording of a fault. -/
def DecodeFault.message : DecodeFault → String
  | .loneSurrogate => "invalid utf-16: lone surrogate found"
  | .base64 fault => fault.message
  | .utf8 fault => fault.message

namespace Decoding

/-- The text of a row of units. -/
def textOf (units : List UInt16) : Except DecodeFault String :=
  match Utf16.decode? units with
  | some text => .ok text
  | none => .error .loneSurrogate

/-- The text of a byte string. -/
def textOfBytes (bytes : Bytes) : Except DecodeFault String :=
  (Utf8.decode bytes).mapError .utf8

/-- The bytes of a text in Base64 (`base64_decode`). -/
def unpacked (alphabet : Base64.Alphabet) (text : String) : Except DecodeFault Bytes :=
  (Base64.decode alphabet (Utf8.encode text)).mapError .base64

/-- The plain text of an encoded literal. -/
def decode (d : Decoding) (encoded : List UInt16) : Except DecodeFault String :=
  match d with
  | .identity => textOf encoded
  | .base64 alphabet => do textOfBytes (← unpacked alphabet (← textOf encoded))
  | .base64Xor alphabet key => do
    let bytes ← unpacked alphabet (← textOf encoded)
    textOfBytes (bytes.map (· ^^^ key))
  | .charXor key => textOf (encoded.map (· ^^^ key))
  | .byteXor key => do
    let text ← textOf encoded
    textOfBytes ((Utf8.encode text).map (· ^^^ key))

theorem map_xor_map_xor (key : UInt16) (units : List UInt16) :
    (units.map (· ^^^ key)).map (· ^^^ key) = units := by
  have undo : (· ^^^ key) ∘ (· ^^^ key) = (id : UInt16 → UInt16) := by
    funext u
    show u ^^^ key ^^^ key = u
    rw [UInt16.xor_assoc, UInt16.xor_self, UInt16.xor_zero]
  rw [List.map_map, undo, List.map_id]

end Decoding

end Clarify
