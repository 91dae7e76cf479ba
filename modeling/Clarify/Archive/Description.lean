import Clarify.Archive.Timestamp
import Clarify.Bytes.Crc32
import Clarify.Text.Utf8

/-!
# Descriptions of entries

The directory of an archive describes each entry: its name, its sizes, and where it stands. Behind
the fields that every description has there may be remarks, each one with its kind and its length.
Some kinds replace a field: wide sizes, the way of packing of what is sealed, a name and a comment
in Unicode. Others are dates, which have to be well-formed but do not count, and the rest is passed
over.

Results:
* `annotate?_nil`: without remarks a description stays as it is.
-/

namespace Clarify.Archive

/-- What the directory says of an entry. -/
structure Description where
  name : String
  /-- The name as it was written, in whatever encoding. -/
  writtenName : Bytes
  comment : String
  /-- The number of the way of packing. -/
  packing : Nat
  time : Option Timestamp
  isEncrypted : Bool
  isSealed : Bool
  checksum : UInt32
  packedSize : Nat
  size : Nat
  /-- Where the header of the entry stands, in an archive that is not shifted. -/
  place : Nat
deriving Repr, DecidableEq

namespace Remark

/-- Why reading remarks stops. -/
inductive Stop where
  /-- They end within a field. What was read until then counts. -/
  | cutShort
  /-- They make no sense, and neither does the archive. -/
  | senseless
deriving Repr, DecidableEq

/-- What is still to be read, and the description so far. -/
structure Progress where
  rest : Bytes
  described : Description

/-- A step of reading. -/
abbrev Step := EStateM Stop Progress

/-- Goes on if a condition is met. -/
def check (condition : Bool) : Step Unit := if condition then pure () else throw .senseless

/-- Reads `count` bytes. -/
def bytes (count : Nat) : Step Bytes := fun p =>
  if count ≤ p.rest.length then .ok (p.rest.take count) { p with rest := p.rest.drop count }
  else .error .cutShort p

/-- The number in bytes of which the lowest comes first. -/
def lowFirst (bytes : Bytes) : Nat := bytes.foldr (fun b n => b.toNat + 256 * n) 0

/-- Reads a number of `count` bytes. -/
def number (count : Nat) : Step Nat := return lowFirst (← bytes count)

/-- Changes the description. -/
def describe (change : Description → Description) : Step Unit :=
  modify fun p => { p with described := change p.described }

/-! ## Kinds of remarks -/

/-- A size or a place that is too large for its field. -/
def tooLarge : Nat := 0xffffffff

/-- The length from which on a remark on sizes has all of them. -/
def fullLength : Nat := 24

/-- Reads a wide number if the remark has all of them or the field asks for it; tells how many
bytes it took. -/
def wideNumber (length field : Nat) (replace : Nat → Description → Description) : Step Nat := do
  if fullLength ≤ length ∨ field = tooLarge then
    describe (replace (← number 8))
    return 8
  else return 0

/-- Reads wide sizes and a wide place. -/
def wideSizes (length : Nat) : Step Unit := do
  let d := (← get).described
  let first ← wideNumber length d.size fun size d => { d with size }
  let second ← wideNumber length d.packedSize fun packedSize d => { d with packedSize }
  let third ← wideNumber length d.place fun place d => { d with place }
  check (first + second + third ≤ length)
  discard (bytes (length - (first + second + third)))

/-- Reads dates in the form of one system: a tag and three wide numbers. -/
def systemDates (length : Nat) : Step Unit := do
  check (length = 32)
  discard (bytes 4)
  check ((← number 2) = 1)
  check ((← number 2) = 24)
  discard (bytes 24)

/-- Reads up to three dates in seconds, for which there are flags. A single one has no need of a
flag. -/
def dates (length : Nat) : Step Unit := do
  let flags ← number 1
  let flagCount := ((List.range 8).filter fun i => flags.testBit i).length
  check (length = 5 ∨ length = 1 + 4 * flagCount)
  check (flags < 8)
  if flags.testBit 0 ∨ length = 5 then discard (bytes 4)
  if flags.testBit 1 ∧ 5 < length then discard (bytes 4)
  if flags.testBit 2 ∧ 5 < length then discard (bytes 4)

/-- Reads with which key an entry is sealed, and how it is packed within. -/
def keyRemark (length : Nat) : Step Unit := do
  check (length = 7)
  let version ← number 2
  let maker ← number 2
  let strength ← number 1
  let packing ← number 2
  check (maker = 0x4541)
  check (version = 1 ∨ version = 2)
  check (1 ≤ strength ∧ strength ≤ 3)
  describe fun d => { d with packing, isSealed := true }

/-- Reads a text in Unicode that stands for another one, which it knows by its check value. -/
def unicode (length : Nat) (other : Bytes) : Step (Bytes × String) := do
  discard (bytes 1)
  let checksum ← number 4
  check (5 ≤ length)
  let written ← bytes (length - 5)
  check (checksum = (Crc32.checksum other).toNat)
  match Utf8.decode written with
  | .ok text => return (written, text)
  | .error _ => throw .senseless

/-- Reads a remark. -/
def one : Step Unit := do
  let kind ← number 2
  let length ← number 2
  match kind with
  | 0x0001 => wideSizes length
  | 0x000a => systemDates length
  | 0x5455 => dates length
  | 0x6375 =>
    let (_, comment) ← unicode length (Utf8.encode (← get).described.comment)
    describe fun d => { d with comment }
  | 0x7075 =>
    let (writtenName, name) ← unicode length (← get).described.writtenName
    describe fun d => { d with name, writtenName }
  | 0x9901 => keyRemark length
  | _ => discard (bytes length)

/-- Reads remarks up to their end. Each one takes one of `steps`. -/
def all (steps : Nat) : Step Unit :=
  match steps with
  | 0 => return
  | steps + 1 => do
    if (← get).rest.isEmpty then return
    one
    all steps

end Remark

/-- The description with its remarks taken in, unless they make no sense. A remark takes four
bytes or more. -/
def Description.annotate? (d : Description) (remarks : Bytes) : Option Description :=
  match (Remark.all (remarks.length / 4 + 1)).run ⟨remarks, d⟩ with
  | .ok () p => some p.described
  | .error .cutShort p => some p.described
  | .error .senseless _ => none

theorem Description.annotate?_nil (d : Description) : d.annotate? [] = some d := rfl

end Clarify.Archive
