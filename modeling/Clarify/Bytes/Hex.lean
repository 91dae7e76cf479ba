import Clarify.Bytes

/-!
# Hexadecimal text

Bytes as two lower-case hexadecimal digits each.

Results:
* `decode?_encode`: reading what was written gives the bytes back.
-/

namespace Clarify.Hex

/-- The lower-case digit of a number below sixteen. -/
def digit (n : Nat) : Char :=
  if n < 10 then Char.ofNat (48 + n) else Char.ofNat (87 + n)

/-- The value of a hexadecimal digit of either case. -/
def value? (c : Char) : Option Nat :=
  if '0' ≤ c ∧ c ≤ '9' then some (c.toNat - 48)
  else if 'a' ≤ c ∧ c ≤ 'f' then some (c.toNat - 87)
  else if 'A' ≤ c ∧ c ≤ 'F' then some (c.toNat - 55)
  else none

/-- The digits of a byte string, appended to `acc`. -/
def push (acc : String) : Bytes → String
  | [] => acc
  | b :: rest => push ((acc.push (digit (b.toNat / 16))).push (digit (b.toNat % 16))) rest

/-- Two lower-case digits for each byte. -/
def encode (bytes : Bytes) : String := push "" bytes

/-- Bytes read from pairs of digits, put in front of the reversed `acc`. -/
def decodeOnto? (acc : Bytes) : List Char → Option Bytes
  | [] => some acc.reverse
  | [_] => none
  | hi :: lo :: rest =>
    match value? hi, value? lo with
    | some h, some l => decodeOnto? (UInt8.ofNat (h * 16 + l) :: acc) rest
    | _, _ => none

/-- The bytes written as `digits`, or nothing if the text is no row of digit pairs. -/
def decode? (digits : String) : Option Bytes := decodeOnto? [] digits.toList

/-- The last `width` lower-case hexadecimal digits of `n`, zeros in front. -/
def ofNat (width n : Nat) : String :=
  String.ofList ((List.range width).map fun i => digit (n / Nat.pow 16 (width - 1 - i) % 16))

/-- The upper-case counterpart of `ofNat`. -/
def ofNatUpper (width n : Nat) : String := (ofNat width n).map Char.toUpper

/-! ## Reading back -/

theorem value?_digit : ∀ n < 16, value? (digit n) = some n := by decide

theorem toList_push (acc : String) (bytes : Bytes) :
    (push acc bytes).toList =
      acc.toList ++ bytes.flatMap fun b => [digit (b.toNat / 16), digit (b.toNat % 16)] := by
  induction bytes generalizing acc with
  | nil => simp [push]
  | cons b rest ih => simp [push, ih]

theorem decodeOnto?_digits (acc bytes : Bytes) :
    decodeOnto? acc (bytes.flatMap fun b => [digit (b.toNat / 16), digit (b.toNat % 16)]) =
      some (acc.reverse ++ bytes) := by
  induction bytes generalizing acc with
  | nil => simp [decodeOnto?]
  | cons b rest ih =>
    have hb : b.toNat < 256 := b.toNat_lt
    have hi := value?_digit (b.toNat / 16) (by omega)
    have lo := value?_digit (b.toNat % 16) (by omega)
    have whole : b.toNat / 16 * 16 + b.toNat % 16 = b.toNat := by omega
    simp [decodeOnto?, hi, lo, whole, ih]

theorem decode?_encode (bytes : Bytes) : decode? (encode bytes) = some bytes := by
  simp [decode?, encode, toList_push, decodeOnto?_digits]

end Clarify.Hex
