import Clarify.ClassFile.FormatError

/-!
# Reading bytes from the front

A reader consumes bytes from the front of a byte string and knows how many came before. A read
that would go past the end fails, tells how many bytes are missing, and consumes nothing.

Results:
* `take_eq_ok`, `u8_cons`, `u16_cons`, `u32_cons`: what a successful read returns and leaves.
-/

namespace Clarify

/-- The bytes still to be read, and the number of bytes read before them (`ByteReader`). -/
structure Cursor where
  rest : Bytes
  offset : Nat
deriving Repr, DecidableEq

/-- A reader at the start of `bytes`. -/
def Cursor.start (bytes : Bytes) : Cursor := ⟨bytes, 0⟩

/-- A step that reads from a cursor; a failing step leaves the cursor where it was when the
missing bytes were asked for. -/
abbrev Reader := EStateM FormatError Cursor

namespace Reader

/-- The next `n` bytes (`ByteReader::bytes`). -/
def take (n : Nat) : Reader Bytes := fun c =>
  let front := c.rest.take n
  if front.length = n then .ok front ⟨c.rest.drop n, c.offset + n⟩
  else .error (.truncated c.offset (n - front.length)) c

/-- The next byte. -/
def u8 : Reader UInt8 := fun c =>
  match c.rest with
  | b :: rest => .ok b ⟨rest, c.offset + 1⟩
  | [] => .error (.truncated c.offset 1) c

/-- The next 16-bit word. -/
def u16 : Reader UInt16 := fun c =>
  match c.rest with
  | hi :: lo :: rest => .ok (word16 hi lo) ⟨rest, c.offset + 2⟩
  | short => .error (.truncated c.offset (2 - short.length)) c

/-- The next 32-bit word. -/
def u32 : Reader UInt32 := fun c =>
  match c.rest with
  | b0 :: b1 :: b2 :: b3 :: rest => .ok (word32 b0 b1 b2 b3) ⟨rest, c.offset + 4⟩
  | short => .error (.truncated c.offset (4 - short.length)) c

/-- The next 64-bit word, read as two halves: where only the second half is missing, the first
one is consumed. -/
def u64 : Reader UInt64 := do
  let hi ← u32
  let lo ← u32
  return word64 hi lo

/-- How many bytes are left. -/
def remaining : Reader Nat := fun c => .ok c.rest.length c

/-- The results of `n` reads by `item`, behind the reversed `acc`. -/
@[specialize] def timesOnto {α : Type} (item : Reader α) : Nat → List α → Reader (List α)
  | 0, acc => pure acc.reverse
  | n + 1, acc => do
    let a ← item
    timesOnto item n (a :: acc)

/-- The results of `n` reads by `item`, in order. -/
@[inline] def times {α : Type} (n : Nat) (item : Reader α) : Reader (List α) :=
  timesOnto item n []

/-- What `item` makes of the whole byte string, without the cursor. -/
def parse {α : Type} (item : Reader α) (bytes : Bytes) : Except FormatError α :=
  match item.run (Cursor.start bytes) with
  | .ok a _ => .ok a
  | .error e _ => .error e

/-! ## What the reads do -/

theorem take_eq_ok (bytes rest : Bytes) (offset : Nat) :
    take bytes.length ⟨bytes ++ rest, offset⟩ = .ok bytes ⟨rest, offset + bytes.length⟩ := by
  simp [take]

@[simp] theorem u8_cons (b : UInt8) (rest : Bytes) (offset : Nat) :
    u8 ⟨b :: rest, offset⟩ = .ok b ⟨rest, offset + 1⟩ := rfl

@[simp] theorem u16_cons (w : UInt16) (rest : Bytes) (offset : Nat) :
    u16 ⟨be16 w ++ rest, offset⟩ = .ok w ⟨rest, offset + 2⟩ :=
  congrArg (EStateM.Result.ok · _) (word16_be16 w)

@[simp] theorem u32_cons (w : UInt32) (rest : Bytes) (offset : Nat) :
    u32 ⟨be32 w ++ rest, offset⟩ = .ok w ⟨rest, offset + 4⟩ :=
  congrArg (EStateM.Result.ok · _) (word32_be32 w)

end Reader

end Clarify
