import Clarify.ClassFile.Attribute
import Clarify.ClassFile.Instruction

/-!
# Method bodies

The body of a method: its machine code, the ranges its exception handlers cover, and attributes
of its own. Code is changed in place only, by other targets for branches or by `nop`s, so every
instruction keeps its offset.

Results:
* `size_nopOut`, `size_retarget?`: neither change makes the code longer or shorter.
-/

namespace Clarify

/-- A range of code and the offset where control goes on after an exception in it
(`ExceptionEntry`). -/
structure Handler where
  start : UInt16
  stop : UInt16
  target : UInt16
  catchType : UInt16
deriving Repr, DecidableEq

/-- The body of a method (`CodeAttribute`). -/
structure Code where
  maxStack : UInt16
  maxLocals : UInt16
  bytes : Array UInt8
  handlers : List Handler
  attributes : List Attribute
deriving Repr, DecidableEq

namespace Code

/-! ## Looking at a body -/

/-- The instructions of the body. -/
def instructions (c : Code) : Except FormatError (Array Instruction) := decode c.bytes

/-- Marks for the offsets that some branch, switch or handler sends control to. A handler may
point behind the code, so there can be more marks than bytes of code. -/
def jumpMarks (c : Code) (instructions : Array Instruction) : Array Bool :=
  let size := c.handlers.foldl (fun n h => max n (h.target.toNat + 1)) c.bytes.size
  let marked := instructions.foldl
    (fun m i => i.targets.foldl (fun m t => m.setIfInBounds t true) m)
    (Array.replicate size false)
  c.handlers.foldl (fun m h => m.setIfInBounds h.target.toNat true) marked

/-- The offsets that some branch, switch or handler sends control to, in ascending order
(`CodeAttribute::jump_targets`). -/
def jumpTargets (c : Code) (instructions : Array Instruction) : List Nat :=
  let marks := c.jumpMarks instructions
  (List.range marks.size).filter fun t => marks.getD t false

/-- Whether some handler covers a byte of the code from `start` up to `stop`
(`covered_by_handler`). -/
def isCovered (c : Code) (start stop : Nat) : Bool :=
  c.handlers.any fun h => h.start.toNat < stop && start < h.stop.toNat

/-! ## Changing bytes in place -/

/-- The code with `bytes` written over what stands at `offset`. -/
def overwrite (code : Array UInt8) (offset : Nat) : Bytes → Array UInt8
  | [] => code
  | b :: rest => overwrite (code.setIfInBounds offset b) (offset + 1) rest

/-- The code with an instruction replaced by `nop`s (`CodeAttribute::nop_out`). -/
def nopOut (code : Array UInt8) (i : Instruction) : Array UInt8 :=
  overwrite code i.offset (List.replicate i.length Opcode.nop)

/-- A distance as a signed 16-bit operand, if it fits. -/
def shortOperand? (distance : Int) : Option Bytes :=
  if -32768 ≤ distance ∧ distance < 32768 then some (be16 (UInt16.ofNat (distance % 65536).toNat))
  else none

/-- A distance as a signed 32-bit operand, if it fits. -/
def wideOperand? (distance : Int) : Option Bytes :=
  if -2147483648 ≤ distance ∧ distance < 2147483648 then
    some (be32 (UInt32.ofNat (distance % 4294967296).toNat))
  else none

/-- The operand that sends a branch with the given opcode over `distance`, if there is one (part of
`CodeAttribute::retarget`). -/
def branchOperand? (opcode : UInt8) (distance : Int) : Option Bytes :=
  if opcode = Opcode.gotoWide ∨ opcode = Opcode.jsrWide then wideOperand? distance
  else if Opcode.isConditional opcode ∨ opcode = Opcode.goto ∨ opcode = Opcode.jsr then
    shortOperand? distance
  else none

/-- The code with a branch sent to another target, if its operand can hold the distance
(`CodeAttribute::retarget`). -/
def retarget? (code : Array UInt8) (i : Instruction) (target : Int) : Option (Array UInt8) :=
  (branchOperand? i.opcode (target - i.offset)).map (overwrite code (i.offset + 1))

/-! ## The written form -/

/-- A handler as it stands in a class file. -/
def writeHandler (h : Handler) : Bytes :=
  be16 h.start ++ be16 h.stop ++ be16 h.target ++ be16 h.catchType

/-- The body as it stands in a class file (`CodeAttribute::to_bytes`). -/
def write (c : Code) : Bytes :=
  be16 c.maxStack ++ be16 c.maxLocals ++ be32 (UInt32.ofNat c.bytes.size) ++ c.bytes.toList
    ++ be16 (UInt16.ofNat c.handlers.length) ++ c.handlers.flatMap writeHandler
    ++ Attribute.writeAll c.attributes

open Reader in
/-- Reads a handler. -/
def readHandler : Reader Handler := do
  return { start := ← u16, stop := ← u16, target := ← u16, catchType := ← u16 }

open Reader in
/-- Reads a body that ends with the bytes at hand and whose instructions can be decoded
(`CodeAttribute::parse`). -/
def read : Reader Code := do
  let maxStack ← u16
  let maxLocals ← u16
  let length ← u32
  if length = 0 || 65535 < length then throw (.malformedCode (.length length.toNat))
  let bytes ← take length.toNat
  let handlers ← times (← u16).toNat readHandler
  let attributes ← Attribute.readAll
  let unread ← remaining
  if unread ≠ 0 then throw (.malformedCode (.unread unread))
  let code : Code := { maxStack, maxLocals, bytes := bytes.toArray, handlers, attributes }
  match code.instructions with
  | .ok _ => return code
  | .error e => throw e

/-! ## Changes keep the length -/

theorem size_overwrite (code : Array UInt8) (offset : Nat) (bytes : Bytes) :
    (overwrite code offset bytes).size = code.size := by
  induction bytes generalizing code offset with
  | nil => rfl
  | cons b rest ih => rw [overwrite, ih, Array.size_setIfInBounds]

theorem size_nopOut (code : Array UInt8) (i : Instruction) : (nopOut code i).size = code.size :=
  size_overwrite ..

theorem size_retarget? {code changed : Array UInt8} {i : Instruction} {target : Int}
    (h : retarget? code i target = some changed) : changed.size = code.size := by
  obtain ⟨operand, -, rfl⟩ := Option.map_eq_some_iff.1 h
  exact size_overwrite ..

end Code

end Clarify
