import Clarify.ClassFile.FormatError
import Clarify.ClassFile.Opcode

/-!
# Instructions

Machine code is a row of instructions of different lengths. Decoding starts at offset 0 and goes
on behind each instruction until the end of the code; then every target of a branch or a switch
has to be the offset of one of them.

Results:
* `Instruction.length_pos`: every instruction has at least one byte, so decoding ends.
* `getD_marks`: a mark stands exactly at the offsets where an instruction starts.
-/

namespace Clarify

/-- The operand of an instruction. Targets are offsets in the code, not distances. -/
inductive Operand where
  | bare
  | byte (value : Int)
  | short (value : Int)
  | slot (number : UInt16)
  /-- An index into the constant pool, one or two bytes wide in the code. -/
  | index (index : UInt16)
  | branch (target : Nat)
  | increment (slot : UInt16) (amount : Int)
  | arrayType (code : UInt8)
  | multiArray (index : UInt16) (dimensions : UInt8)
  | switch (default : Nat) (targets : List Nat)
deriving Repr, DecidableEq

/-- A decoded instruction. -/
structure Instruction where
  offset : Nat
  opcode : UInt8
  /-- The number of bytes behind the opcode. -/
  operandLength : Nat
  operand : Operand
deriving Repr, DecidableEq

namespace Instruction

/-- The number of bytes of the instruction. -/
def length (i : Instruction) : Nat := i.operandLength + 1

/-- The offset behind the instruction (`Instruction::next_offset`). -/
def next (i : Instruction) : Nat := i.offset + i.length

/-- The constant pool index in the operand (`Instruction::pool_index`). -/
def poolIndex? (i : Instruction) : Option UInt16 :=
  match i.operand with
  | .index n | .multiArray n _ => some n
  | _ => none

/-- The target of a branch (`Instruction::branch_target`). -/
def target? (i : Instruction) : Option Nat :=
  match i.operand with
  | .branch t => some t
  | _ => none

/-- Where the instruction can send control, apart from the one behind it. -/
def targets (i : Instruction) : List Nat :=
  match i.operand with
  | .branch t => [t]
  | .switch default ts => default :: ts
  | _ => []

theorem length_pos (i : Instruction) : 0 < i.length := Nat.succ_pos _

end Instruction

namespace Code

/-! ## Words inside the code -/

/-- The byte at an offset, zero behind the end. -/
def byteAt (code : Array UInt8) (at' : Nat) : UInt8 := code.getD at' 0

/-- The 16-bit word at an offset. -/
def wordAt (code : Array UInt8) (at' : Nat) : UInt16 :=
  word16 (byteAt code at') (byteAt code (at' + 1))

/-- The signed 16-bit number at an offset (`be_i16`). -/
def shortAt (code : Array UInt8) (at' : Nat) : Int := signed16 (wordAt code at')

/-- The signed 32-bit number at an offset (`be_i32`). -/
def intAt (code : Array UInt8) (at' : Nat) : Int :=
  signed32 (word32 (byteAt code at') (byteAt code (at' + 1)) (byteAt code (at' + 2))
    (byteAt code (at' + 3)))

/-- Refuses code that has no `length` bytes at `offset`. -/
def need (code : Array UInt8) (offset length : Nat) : Except FormatError Unit :=
  if offset + length ≤ code.size then .ok ()
  else .error (.truncated offset (offset + length - code.size))

/-- The offset at a distance from `pc`, which has to lie inside the code (`branch`). -/
def target (code : Array UInt8) (pc : Nat) (distance : Int) : Except FormatError Nat :=
  let t := (pc : Int) + distance
  if 0 ≤ t ∧ t < code.size then .ok t.toNat else .error (.badBranch pc t)

/-! ## One instruction -/

/-- The number of bytes between the opcode of a switch at `pc` and the next aligned word. -/
def padding (pc : Nat) : Nat := 3 - pc % 4

/-- `count` targets whose distances stand `stride` bytes apart from `start` on. -/
def targetsFrom (code : Array UInt8) (pc start stride count : Nat) :
    Except FormatError (List Nat) :=
  (List.range count).mapM fun i => target code pc (intAt code (start + i * stride))

/-- The operand of a table switch at `pc`, and its length (part of `decode_one`). -/
def tableSwitchAt (code : Array UInt8) (pc : Nat) : Except FormatError (Operand × Nat) := do
  let base := pc + 1 + padding pc
  need code base 12
  let default ← target code pc (intAt code base)
  let low := intAt code (base + 4)
  let high := intAt code (base + 8)
  if high < low then throw (.malformedCode (.emptyTable pc))
  let count := (high - low + 1).toNat
  need code (base + 12) (count * 4)
  let targets ← targetsFrom code pc (base + 12) 4 count
  return (.switch default targets, padding pc + 12 + count * 4)

/-- The operand of a lookup switch at `pc`, and its length (part of `decode_one`). -/
def lookupSwitchAt (code : Array UInt8) (pc : Nat) : Except FormatError (Operand × Nat) := do
  let base := pc + 1 + padding pc
  need code base 8
  let default ← target code pc (intAt code base)
  let pairs := intAt code (base + 4)
  if pairs < 0 then throw (.malformedCode (.negativePairs pc))
  let count := pairs.toNat
  need code (base + 8) (count * 8)
  let targets ← targetsFrom code pc (base + 12) 8 count
  return (.switch default targets, padding pc + 8 + count * 8)

/-- The operand of a widened instruction at `pc`, and its length (part of `decode_one`). -/
def wideAt (code : Array UInt8) (pc : Nat) : Except FormatError (Operand × Nat) := do
  need code pc 2
  let op := byteAt code (pc + 1)
  if op = Opcode.iinc then
    need code pc 6
    return (.increment (wordAt code (pc + 2)) (shortAt code (pc + 4)), 5)
  else if Opcode.isLocalAccess op then
    need code pc 4
    return (.slot (wordAt code (pc + 2)), 3)
  else throw (.badOpcode op (pc + 1))

/-- The operand of the instruction at `pc`, and its length (part of `decode_one`). -/
def operandAt (code : Array UInt8) (pc : Nat) : Except FormatError (Operand × Nat) :=
  let op := byteAt code pc
  match Opcode.shape? op with
  | none => .error (.badOpcode op pc)
  | some .bare => .ok (.bare, 0)
  | some .byte => do
    need code pc 2
    return (.byte (signed8 (byteAt code (pc + 1))), 1)
  | some .short => do
    need code pc 3
    return (.short (shortAt code (pc + 1)), 2)
  | some .narrowIndex => do
    need code pc 2
    return (.index (byteAt code (pc + 1)).toUInt16, 1)
  | some .index => do
    need code pc 3
    return (.index (wordAt code (pc + 1)), 2)
  | some .callSite => do
    need code pc 5
    return (.index (wordAt code (pc + 1)), 4)
  | some .slot => do
    need code pc 2
    return (.slot (byteAt code (pc + 1)).toUInt16, 1)
  | some .increment => do
    need code pc 3
    return (.increment (byteAt code (pc + 1)).toUInt16 (signed8 (byteAt code (pc + 2))), 2)
  | some .branch => do
    need code pc 3
    return (.branch (← target code pc (shortAt code (pc + 1))), 2)
  | some .wideBranch => do
    need code pc 5
    return (.branch (← target code pc (intAt code (pc + 1))), 4)
  | some .tableSwitch => tableSwitchAt code pc
  | some .lookupSwitch => lookupSwitchAt code pc
  | some .arrayType => do
    need code pc 2
    return (.arrayType (byteAt code (pc + 1)), 1)
  | some .multiArray => do
    need code pc 4
    return (.multiArray (wordAt code (pc + 1)) (byteAt code (pc + 3)), 3)
  | some .wide => wideAt code pc

/-- The instruction at `pc` (`decode_one`). -/
def instructionAt (code : Array UInt8) (pc : Nat) : Except FormatError Instruction := do
  let (operand, operandLength) ← operandAt code pc
  return { offset := pc, opcode := byteAt code pc, operandLength, operand }

/-! ## All instructions -/

/-- The instructions from `pc` on, behind `found` (part of `decode`). -/
def instructionsFrom (code : Array UInt8) (pc : Nat) (found : Array Instruction) :
    Except FormatError (Array Instruction) :=
  if _inside : pc < code.size then
    match instructionAt code pc with
    | .ok i => instructionsFrom code (pc + i.length) (found.push i)
    | .error e => .error e
  else .ok found
termination_by code.size - pc
decreasing_by have := i.length_pos; omega

/-- For each offset below `size`, whether one of the instructions starts there. -/
def marks (size : Nat) (instructions : Array Instruction) : Array Bool :=
  instructions.foldl (fun m i => m.setIfInBounds i.offset true) (Array.replicate size false)

/-- Refuses an instruction some target of which has no mark (part of `decode`). -/
def checkTargets (starts : Array Bool) (i : Instruction) : Except FormatError Unit :=
  i.targets.forM fun t =>
    if starts.getD t false then .ok () else .error (.badBranch i.offset t)

/-- The instructions of the code. -/
def decode (code : Array UInt8) : Except FormatError (Array Instruction) := do
  let instructions ← instructionsFrom code 0 #[]
  let starts := marks code.size instructions
  instructions.forM (checkTargets starts)
  return instructions

/-! ## The marks -/

/-- Marks are set at the given offsets inside the table. -/
theorem getD_foldl_mark (offsets : List Nat) (marks : Array Bool) (t : Nat) :
    (offsets.foldl (fun m o => m.setIfInBounds o true) marks).getD t false = true ↔
      marks.getD t false = true ∨ t < marks.size ∧ t ∈ offsets := by
  induction offsets generalizing marks with
  | nil => simp
  | cons o offsets ih =>
    rw [List.foldl_cons, ih]
    simp only [Array.size_setIfInBounds, Array.getD_eq_getD_getElem?,
      Array.getElem?_setIfInBounds, List.mem_cons]
    by_cases here : o = t
    · by_cases inside : t < marks.size <;> simp [here, inside]
    · simp [here, Ne.symm here]

theorem getD_replicate_false (size t : Nat) :
    (Array.replicate size false).getD t false = false := by
  rw [Array.getD_eq_getD_getElem?, Array.getElem?_replicate]
  by_cases inside : t < size <;> simp [inside]

theorem getD_marks (size t : Nat) (instructions : Array Instruction) :
    (marks size instructions).getD t false = true ↔
      t < size ∧ ∃ i ∈ instructions, i.offset = t := by
  have row : marks size instructions = (instructions.toList.map Instruction.offset).foldl
      (fun m o => m.setIfInBounds o true) (Array.replicate size false) := by
    rw [marks, ← Array.foldl_toList, List.foldl_map]
  rw [row, getD_foldl_mark, getD_replicate_false, Array.size_replicate, List.mem_map]
  simp only [Bool.false_eq_true, false_or, Array.mem_toList_iff]

end Code

end Clarify
