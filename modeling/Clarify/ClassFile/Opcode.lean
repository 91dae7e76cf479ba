import Clarify.Bytes

/-!
# Opcodes

The operation codes that the passes look at, the classes they fall into, and the shape
of the operand that follows each code.
-/

namespace Clarify.Opcode

@[match_pattern] def nop : UInt8 := 0x00
@[match_pattern] def iconstM1 : UInt8 := 0x02
@[match_pattern] def iconst5 : UInt8 := 0x08
@[match_pattern] def bipush : UInt8 := 0x10
@[match_pattern] def sipush : UInt8 := 0x11
@[match_pattern] def ldc : UInt8 := 0x12
@[match_pattern] def ldcWide : UInt8 := 0x13
@[match_pattern] def iload : UInt8 := 0x15
@[match_pattern] def aload : UInt8 := 0x19
@[match_pattern] def aload0 : UInt8 := 0x2a
@[match_pattern] def istore : UInt8 := 0x36
@[match_pattern] def astore : UInt8 := 0x3a
@[match_pattern] def pop : UInt8 := 0x57
@[match_pattern] def pop2 : UInt8 := 0x58
@[match_pattern] def ixor : UInt8 := 0x82
@[match_pattern] def iinc : UInt8 := 0x84
@[match_pattern] def ifeq : UInt8 := 0x99
@[match_pattern] def ifle : UInt8 := 0x9e
@[match_pattern] def ifIcmpeq : UInt8 := 0x9f
@[match_pattern] def ifAcmpne : UInt8 := 0xa6
@[match_pattern] def goto : UInt8 := 0xa7
@[match_pattern] def jsr : UInt8 := 0xa8
@[match_pattern] def ret : UInt8 := 0xa9
@[match_pattern] def tableswitch : UInt8 := 0xaa
@[match_pattern] def lookupswitch : UInt8 := 0xab
@[match_pattern] def ireturn : UInt8 := 0xac
@[match_pattern] def areturn : UInt8 := 0xb0
@[match_pattern] def «return» : UInt8 := 0xb1
@[match_pattern] def invokevirtual : UInt8 := 0xb6
@[match_pattern] def invokestatic : UInt8 := 0xb8
@[match_pattern] def invokeinterface : UInt8 := 0xb9
@[match_pattern] def invokedynamic : UInt8 := 0xba
@[match_pattern] def athrow : UInt8 := 0xbf
@[match_pattern] def wide : UInt8 := 0xc4
@[match_pattern] def ifnull : UInt8 := 0xc6
@[match_pattern] def ifnonnull : UInt8 := 0xc7
@[match_pattern] def gotoWide : UInt8 := 0xc8
@[match_pattern] def jsrWide : UInt8 := 0xc9

/-! ## Classes of opcodes -/

/-- Conditional branches that pop one operand (`is_unary_if`). -/
def isUnaryBranch (op : UInt8) : Bool :=
  (ifeq ≤ op && op ≤ ifle) || op == ifnull || op == ifnonnull

/-- Conditional branches that compare two operands (`is_binary_if`). -/
def isBinaryBranch (op : UInt8) : Bool :=
  ifIcmpeq ≤ op && op ≤ ifAcmpne

/-- Conditional branches of either kind (`is_conditional`). -/
def isConditional (op : UInt8) : Bool := isUnaryBranch op || isBinaryBranch op

/-- Unconditional jumps of either width. -/
def isGoto (op : UInt8) : Bool := op == goto || op == gotoWide

/-- Subroutine calls of either width. -/
def isSubroutineCall (op : UInt8) : Bool := op == jsr || op == jsrWide

/-- Returns, with or without a value (`is_return`). -/
def isReturn (op : UInt8) : Bool := ireturn ≤ op && op ≤ «return»

/-- Instructions behind which control never goes on (`ends_block`). -/
def endsBlock (op : UInt8) : Bool :=
  isGoto op || op == ret || op == tableswitch || op == lookupswitch || op == athrow || isReturn op

/-- Method invocations of every kind (`is_invoke`). -/
def isInvoke (op : UInt8) : Bool := invokevirtual ≤ op && op ≤ invokedynamic

/-- Loads from and stores to a numbered local, the ones that `wide` may precede except `iinc`. -/
def isLocalAccess (op : UInt8) : Bool :=
  (iload ≤ op && op ≤ aload) || (istore ≤ op && op ≤ astore) || op == ret

/-! ## Operand shapes -/

/-- What follows an opcode. -/
inductive Shape where
  /-- Nothing. -/
  | bare
  /-- A signed byte. -/
  | byte
  /-- A signed 16-bit word. -/
  | short
  /-- A constant pool index of one byte. -/
  | narrowIndex
  /-- A constant pool index of two bytes. -/
  | index
  /-- A constant pool index of two bytes and two more bytes. -/
  | callSite
  /-- The number of a local in one byte. -/
  | slot
  /-- The number of a local and a signed byte to add. -/
  | increment
  /-- A signed 16-bit distance. -/
  | branch
  /-- A signed 32-bit distance. -/
  | wideBranch
  | tableSwitch
  | lookupSwitch
  /-- The element type of a primitive array. -/
  | arrayType
  /-- A constant pool index of two bytes and a number of dimensions. -/
  | multiArray
  /-- Another opcode with wider operands. -/
  | wide
deriving Repr, DecidableEq

/-- The shape of an opcode's operand, or nothing for an unassigned opcode. -/
def shape? (op : UInt8) : Option Shape :=
  if op ≤ 0x0f then some .bare
  else if op = bipush then some .byte
  else if op = sipush then some .short
  else if op = ldc then some .narrowIndex
  else if op ≤ 0x14 then some .index
  else if op ≤ aload then some .slot
  else if op < istore then some .bare
  else if op ≤ astore then some .slot
  else if op < iinc then some .bare
  else if op = iinc then some .increment
  else if op < ifeq then some .bare
  else if op ≤ jsr then some .branch
  else if op = ret then some .slot
  else if op = tableswitch then some .tableSwitch
  else if op = lookupswitch then some .lookupSwitch
  else if op ≤ «return» then some .bare
  else if op ≤ invokestatic then some .index
  else if op ≤ invokedynamic then some .callSite
  else if op = 0xbb then some .index
  else if op = 0xbc then some .arrayType
  else if op = 0xbd then some .index
  else if op ≤ athrow then some .bare
  else if op ≤ 0xc1 then some .index
  else if op ≤ 0xc3 then some .bare
  else if op = wide then some .wide
  else if op = 0xc5 then some .multiArray
  else if op ≤ ifnonnull then some .branch
  else if op ≤ jsrWide then some .wideBranch
  else none

end Clarify.Opcode
