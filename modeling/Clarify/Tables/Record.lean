import Clarify.Tables.Varint

/-!
# Records

A row of a table is a record: the kinds of its values, one after the other, and then the values.
The kind of a number tells in how many bytes it stands, and the kind of a text its length.

Results:
* `natOf_bytesOf`: a number is read back from bytes that are wide enough.
-/

namespace Clarify.Tables

/-! ## Numbers -/

/-- The lowest `count` bytes of a number, the highest first. -/
def bytesOf (count n : Nat) : Bytes :=
  match count with
  | 0 => []
  | count + 1 => bytesOf count (n / 256) ++ [UInt8.ofNat (n % 256)]

/-- The number in bytes of which the highest comes first. -/
def natOf (bytes : Bytes) : Nat := bytes.foldl (fun n b => 256 * n + b.toNat) 0

/-- A number below `256 ^ count` in two's complement. -/
def signed (count n : Nat) : Int :=
  if 2 * n < Nat.pow 256 count then n else (n : Int) - Nat.pow 256 count

/-- A number that `signed` takes to the given one. -/
def unsigned (count : Nat) (n : Int) : Nat := (n % Nat.pow 256 count).toNat

@[simp] theorem length_bytesOf (count n : Nat) : (bytesOf count n).length = count := by
  induction count generalizing n with
  | zero => rfl
  | succ count ih => simp [bytesOf, ih]

theorem natOf_bytesOf {count n : Nat} (bounded : n < Nat.pow 256 count) :
    natOf (bytesOf count n) = n := by
  induction count generalizing n with
  | zero =>
    have none : n = 0 := by simpa using bounded
    simp [natOf, bytesOf, none]
  | succ count ih =>
    have power : Nat.pow 256 (count + 1) = Nat.pow 256 count * 256 := rfl
    have high := @ih (n / 256) (by omega)
    unfold natOf at high ⊢
    rw [bytesOf, List.foldl_append, high]
    simp only [List.foldl_cons, List.foldl_nil, UInt8.toNat_ofNat']
    omega

/-! ## Values -/

/-- A value in a table. -/
inductive Cell where
  | null
  | integer (n : Int)
  | real (bits : UInt64)
  /-- A text in whatever encoding the file has. -/
  | text (bytes : Bytes)
  | blob (bytes : Bytes)
deriving Repr, DecidableEq

namespace Cell

/-- The word for the kind of a value. -/
def word : Cell → String
  | null => "Null"
  | integer _ => "Integer"
  | real _ => "Real"
  | text _ => "Text"
  | blob _ => "Blob"

/-- The widths that integers may have, narrowest first, in the order of their codes. -/
def widths : List Nat := [1, 2, 3, 4, 6, 8]

/-- Whether a number in two's complement has room in so many bytes. -/
def fits (n : Int) (width : Nat) : Bool := signed width (unsigned width n) = n

/-- The code of a kind and the bytes of a value. -/
def encode : Cell → Nat × Bytes
  | null => (0, [])
  | integer n =>
    if n = 0 then (8, [])
    else if n = 1 then (9, [])
    else
      let code := (widths.findIdx? (fits n)).getD 5
      let width := widths.getD code 8
      (code + 1, bytesOf width (unsigned width n))
  | real bits => (7, be64 bits)
  | blob bytes => (12 + 2 * bytes.length, bytes)
  | text bytes => (13 + 2 * bytes.length, bytes)

/-- The length of a value whose kind has the given code, and what its bytes mean. -/
def shape? (code : Nat) : Option (Nat × (Bytes → Cell)) :=
  match code with
  | 0 => some (0, fun _ => null)
  | 7 => some (8, fun bytes => real (UInt64.ofNat (natOf bytes)))
  | 8 => some (0, fun _ => integer 0)
  | 9 => some (0, fun _ => integer 1)
  | _ =>
    match widths[code - 1]? with
    | some width => some (width, fun bytes => integer (signed width (natOf bytes)))
    | none =>
      if code < 12 then none
      else if code % 2 = 0 then some ((code - 12) / 2, blob)
      else some ((code - 13) / 2, text)

end Cell

/-! ## Rows -/

/-- The numbers that some bytes are made of. Each one takes one of `steps`. -/
def numbers? (steps : Nat) (bytes : Bytes) : Option (List Nat) :=
  match steps with
  | 0 => if bytes.isEmpty then some [] else none
  | steps + 1 =>
    if bytes.isEmpty then some []
    else do
      let (n, rest) ← Varint.read? bytes
      return n :: (← numbers? steps rest)

/-- The values of the given kinds that stand one behind the other. -/
def cells? (bytes : Bytes) : List Nat → Option (List Cell)
  | [] => some []
  | code :: codes => do
    let (length, meaning) ← Cell.shape? code
    guard (length ≤ bytes.length)
    return meaning (bytes.take length) :: (← cells? (bytes.drop length) codes)

/-- The record in some bytes. In front there is the length of all that comes before the values. -/
def record? (bytes : Bytes) : Option (List Cell) := do
  let (length, rest) ← Varint.read? bytes
  let codesLength := length - (bytes.length - rest.length)
  let codes := rest.take codesLength
  cells? (rest.drop codesLength) (← numbers? codes.length codes)

/-- The length of all that comes before the values, for codes of the given length. -/
def headLength (codesLength : Nat) : Nat :=
  if codesLength < 127 then codesLength + 1 else codesLength + 2

/-- The bytes of a record. -/
def recordBytes (cells : List Cell) : Bytes :=
  let encoded := cells.map Cell.encode
  let codes := encoded.flatMap fun (code, _) => Varint.encode code
  Varint.encode (headLength codes.length) ++ codes ++ encoded.flatMap Prod.snd

example : record? (recordBytes [.null, .integer (-129), .text [97], .integer 1]) =
    some [.null, .integer (-129), .text [97], .integer 1] := by decide +kernel

end Clarify.Tables
