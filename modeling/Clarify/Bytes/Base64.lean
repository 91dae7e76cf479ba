import Clarify.Bytes

/-!
# Base64

Reading bytes that are written as symbols of six bits. Padding may be left out, but where it
stands it has to be at the end; bits that are not part of a byte have to be zero. A fault names
the first byte of the text that is wrong.
-/

namespace Clarify.Base64

/-- The symbols for 62 and 63 differ between the two alphabets. -/
inductive Alphabet where
  | standard
  | urlSafe
deriving Repr, DecidableEq

/-- What is wrong with an encoded text. -/
inductive Fault where
  | symbol (value : UInt8) (offset : Nat)
  /-- The last symbol has bits that are not part of a byte. -/
  | lastSymbol (value : UInt8) (offset : Nat)
  | length (symbols : Nat)
deriving Repr, DecidableEq

/-- The wording of a fault. -/
def Fault.message : Fault → String
  | .symbol value offset => s!"Invalid symbol {value}, offset {offset}."
  | .lastSymbol value offset => s!"Invalid last symbol {value}, offset {offset}."
  | .length symbols => s!"Invalid input length: {symbols}"

/-- The six bits of a symbol. -/
def value? (a : Alphabet) (b : UInt8) : Option Nat :=
  let n := b.toNat
  if 65 ≤ n ∧ n ≤ 90 then some (n - 65)
  else if 97 ≤ n ∧ n ≤ 122 then some (n - 71)
  else if 48 ≤ n ∧ n ≤ 57 then some (n + 4)
  else match a with
    | .standard => if n = 43 then some 62 else if n = 47 then some 63 else none
    | .urlSafe => if n = 45 then some 62 else if n = 95 then some 63 else none

/-- The padding symbol `=`. -/
def pad : UInt8 := 61

/-- The values of a row of symbols that starts at `offset`, behind the reversed `acc`. -/
def valuesOnto (a : Alphabet) (offset : Nat) (acc : List Nat) : Bytes → Except Fault (List Nat)
  | [] => .ok acc.reverse
  | b :: rest =>
    match value? a b with
    | some v => valuesOnto a (offset + 1) (v :: acc) rest
    | none => .error (.symbol b offset)

/-- The values of the last group, which starts at `start`. -/
def lastGroup (a : Alphabet) (start : Nat) (group : Bytes) : Except Fault (List Nat) := do
  let symbols := group.takeWhile (· != pad)
  let padding := group.drop symbols.length
  let values ← valuesOnto a start [] symbols
  if !padding.isEmpty && (symbols.length < 2 || !padding.all (· == pad)) then
    throw (.symbol pad (start + symbols.length))
  if !group.isEmpty && values.length < 2 then throw (.length (start + values.length))
  match symbols.getLast?, values.getLast? with
  | some symbol, some value =>
    if value % Nat.pow 2 (values.length * 6 % 8) = 0 then return values
    else throw (.lastSymbol symbol (start + values.length - 1))
  | _, _ => return values

/-- The bytes of a row of values, behind the reversed `acc`; `bits` bits with the given value are
left over from the values before. -/
def bytesOnto (acc : Bytes) (bits left : Nat) : List Nat → Bytes
  | [] => acc.reverse
  | v :: rest =>
    let left := left * 64 + v
    if 2 ≤ bits then
      let unit := Nat.pow 2 (bits - 2)
      bytesOnto (UInt8.ofNat (left / unit) :: acc) (bits - 2) (left % unit) rest
    else bytesOnto acc (bits + 6) left rest

/-- Refuses a text with one byte more than whole groups if that byte is neither a symbol nor
padding. -/
def checkStray (a : Alphabet) (encoded : Bytes) : Except Fault Unit :=
  match encoded.getLast? with
  | some b =>
    if encoded.length % 4 = 1 ∧ b ≠ pad ∧ value? a b = none then
      .error (.symbol b (encoded.length - 1))
    else .ok ()
  | none => .ok ()

/-- The bytes that a text encodes. -/
def decode (a : Alphabet) (encoded : Bytes) : Except Fault Bytes := do
  checkStray a encoded
  let start := (encoded.length - 1) / 4 * 4
  let front ← valuesOnto a 0 [] (encoded.take start)
  let back ← lastGroup a start (encoded.drop start)
  return bytesOnto [] 0 0 (front ++ back)

end Clarify.Base64
