import Clarify.ClassFile.Code

/-!
# Simplifying the flow of control

Two changes to the body of a method. A branch to an unconditional jump goes straight to where the
chain of jumps ends. Then a conditional branch both arms of which do the same becomes a removal of
its operands from the stack. Every instruction keeps its offset.

Results:
* `getElem?_doubled`: doubling a table of hops makes each step twice as long.
-/

namespace Clarify

/-- How many branches were changed (`FlowStats`). -/
structure FlowCounts where
  threaded : Nat
  collapsed : Nat
deriving Repr, DecidableEq

namespace FlowCounts

/-- No branch. -/
def none : FlowCounts := ⟨0, 0⟩

/-- Whether no branch was changed (`FlowStats::is_empty`). -/
def isEmpty (n : FlowCounts) : Bool := n.threaded == 0 && n.collapsed == 0

instance : Add FlowCounts := ⟨fun a b => ⟨a.threaded + b.threaded, a.collapsed + b.collapsed⟩⟩

end FlowCounts

/-! ## Finding instructions -/

/-- The instructions of a body and where to find each (`Body`). -/
structure Flow where
  instructions : Array Instruction
  /-- For each offset, the position of the instruction that starts there. -/
  positions : Array (Option Nat)

namespace Flow

/-- The positions of instructions in code of the given size. -/
def positionsOf (size : Nat) (instructions : Array Instruction) : Array (Option Nat) :=
  instructions.toList.zipIdx.foldl (fun table (i, position) =>
    table.setIfInBounds i.offset (some position)) (Array.replicate size none)

/-- The instructions of code of the given size (`Body::new`). -/
def ofInstructions (size : Nat) (instructions : Array Instruction) : Flow :=
  ⟨instructions, positionsOf size instructions⟩

/-- The position of the instruction at an offset. -/
def position? (f : Flow) (offset : Nat) : Option Nat := (f.positions[offset]?).join

/-- The instruction at an offset (`Body::at`). -/
def at? (f : Flow) (offset : Nat) : Option Instruction := do
  f.instructions[← f.position? offset]?

/-! ## Chains of jumps -/

/-- Where the unconditional jump at an offset leads. -/
def jump? (f : Flow) (offset : Nat) : Option Nat := do
  let i ← f.at? offset
  if Opcode.isGoto i.opcode then i.target? else none

/-- One step along a chain of jumps, which stands still where the chain ends. -/
def hop (f : Flow) (offset : Nat) : Nat := (f.jump? offset).getD offset

/-- A table of steps made into one of steps twice as long. -/
def doubled (table : Array Nat) : Array Nat := table.map fun offset => table.getD offset offset

/-- For each offset, where at least as many steps lead as there are instructions. -/
def ends (f : Flow) : Array Nat :=
  (f.instructions.size.log2 + 1).repeat doubled ((Array.range f.positions.size).map f.hop)

/-- Where the chain of jumps at an offset leads, by the table of `ends` (`Body::resolve`). A chain
that has not ended there never does, and leads nowhere else. -/
def destination (f : Flow) (ends : Array Nat) (offset : Nat) : Nat :=
  let final := ends.getD offset offset
  if (f.jump? final).isSome then offset else final

/-- Whether the target of a branch may be changed. -/
def isThreadable (i : Instruction) : Bool := Opcode.isConditional i.opcode || Opcode.isGoto i.opcode

/-- The branches that do not lead straight to their destination, each with its destination. -/
def detours (f : Flow) : List (Instruction × Nat) :=
  let ends := f.ends
  f.instructions.toList.filterMap fun i =>
    if isThreadable i then do
      let target ← i.target?
      let destination := f.destination ends target
      if destination ≠ target then some (i, destination) else none
    else none

/-- Sends a branch straight to its destination, if its operand can hold the distance. -/
def thread (state : Array UInt8 × Nat) (detour : Instruction × Nat) : Array UInt8 × Nat :=
  match Code.retarget? state.1 detour.1 detour.2 with
  | some changed => (changed, state.2 + 1)
  | none => state

/-! ## Equal arms -/

/-- Whether control leaves a straight line of code behind an instruction without leaving the
method. -/
def transfers (i : Instruction) : Bool :=
  !i.targets.isEmpty || Opcode.endsBlock i.opcode || Opcode.isSubroutineCall i.opcode

/-- Whether an instruction leaves the method. -/
def leaves (i : Instruction) : Bool := Opcode.isReturn i.opcode || i.opcode == Opcode.athrow

/-- Where the straight line of code that begins at a position ends, if its last instruction leaves
the method. -/
def lineEnd? (instructions : Array Instruction) (position : Nat) : Option Nat :=
  if inside : position < instructions.size then
    let i := instructions[position]
    if leaves i then some i.next
    else if transfers i then none
    else lineEnd? instructions (position + 1)
  else none
termination_by instructions.size - position

/-- Where the straight line of code at an offset ends, if it leaves the method there
(`Body::terminal_block`). -/
def blockEnd? (f : Flow) (offset : Nat) : Option Nat := do
  lineEnd? f.instructions (← f.position? offset)

/-- Whether the blocks at two offsets are made of the same bytes and lie outside of all handlers. -/
def sameBlocks (c : Code) (f : Flow) (a b : Nat) : Bool :=
  match f.blockEnd? a, f.blockEnd? b with
  | some aEnd, some bEnd =>
    c.bytes.extract a aEnd == c.bytes.extract b bEnd && !c.isCovered a aEnd && !c.isCovered b bEnd
  | _, _ => false

/-- Whether it does not matter which way a branch goes (part of `simplify`). -/
def isIdle (c : Code) (f : Flow) (ends : Array Nat) (i : Instruction) : Bool :=
  match i.target? with
  | some target =>
    let taken := f.destination ends target
    let passed := f.destination ends i.next
    Opcode.isConditional i.opcode && (taken == passed || sameBlocks c f taken passed)
  | none => false

/-- Replaces a conditional branch by the removal of its operands (part of `simplify`). -/
def collapse (code : Array UInt8) (i : Instruction) : Array UInt8 :=
  let drop := if Opcode.isBinaryBranch i.opcode then Opcode.pop2 else Opcode.pop
  (Code.nopOut code i).setIfInBounds i.offset drop

end Flow

namespace Code

/-- The body with every branch sent straight to its destination, and how many were changed (part of
`simplify`). -/
def threadJumps (c : Code) (instructions : Array Instruction) : Code × Nat :=
  let flow := Flow.ofInstructions c.bytes.size instructions
  let (bytes, count) := flow.detours.foldl Flow.thread (c.bytes, 0)
  ({ c with bytes }, count)

/-- The body without conditional branches that do not matter, and how many there were (part of
`simplify`). -/
def collapseBranches (c : Code) (instructions : Array Instruction) : Code × Nat :=
  let flow := Flow.ofInstructions c.bytes.size instructions
  let ends := flow.ends
  let idle := instructions.toList.filter (Flow.isIdle c flow ends)
  ({ c with bytes := idle.foldl Flow.collapse c.bytes }, idle.length)

/-- The body with its flow of control simplified, and how many branches were changed. -/
def simplify (c : Code) : Except FormatError (Code × FlowCounts) := do
  let (straight, threaded) := c.threadJumps (← c.instructions)
  let (simple, collapsed) := straight.collapseBranches (← straight.instructions)
  return (simple, { threaded, collapsed })

end Code

/-! ## Steps of double length -/

theorem Flow.getElem?_doubled (table : Array Nat) (offset : Nat) :
    (Flow.doubled table)[offset]? =
      (table[offset]?).map fun next => (table[next]?).getD next := by
  simp [Flow.doubled]

end Clarify
