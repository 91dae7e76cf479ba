import Clarify.ClassFile
import Clarify.Pass.Decoding

/-!
# Decrypt helpers

A helper is a static method that takes a string and returns one. How it decodes is read off its
own instructions: which library methods it calls, and the one key that it combines with each unit
or byte. A helper that fits none of the known rules has no decoding.
-/

namespace Clarify

/-- A helper of a class. -/
structure Helper where
  /-- The position of the method in its class. -/
  method : Nat
  name : String
  label : String
  decoding : Option Decoding

namespace Helper

/-- The descriptor of every helper (`HELPER_DESCRIPTOR`). -/
def descriptor : String := "(Ljava/lang/String;)Ljava/lang/String;"

/-- Each instruction with the one before it. -/
def withPrevious (instructions : List Instruction) : List (Option Instruction × Instruction) :=
  (none :: instructions.map some).zip instructions

/-- Whether an instruction loads a constant by a one-byte or a two-byte index. -/
def isConstantLoad (i : Instruction) : Bool := i.opcode == Opcode.ldc || i.opcode == Opcode.ldcWide

/-- The integer that an instruction pushes (`pushed_int`). -/
def pushed? (pool : Pool) (i : Instruction) : Option Int :=
  match i.operand with
  | .bare =>
    if Opcode.iconstM1 ≤ i.opcode && i.opcode ≤ Opcode.iconst5 then
      some ((i.opcode.toNat : Int) - 3)
    else none
  | .byte value | .short value => some value
  | .index index => if isConstantLoad i then pool.integer? index else none
  | _ => none

/-- Whether an instruction loads the first argument (`is_load_first_arg`). -/
def loadsArgument (i : Instruction) : Bool :=
  i.opcode == Opcode.aload0 || (i.opcode == Opcode.aload && i.operand == .slot 0)

/-- Whether the instructions do nothing but return the argument. -/
def isIdentity (instructions : List Instruction) : Bool :=
  match instructions.filter fun i => i.opcode != Opcode.nop with
  | [load, back] => loadsArgument load && back.opcode == Opcode.areturn
  | _ => false

/-- For each exclusive or, the integer that the instruction before it pushes. -/
def keys (pool : Pool) (instructions : List Instruction) : List (Option Int) :=
  (withPrevious instructions).filterMap fun (previous, i) =>
    if i.opcode = Opcode.ixor then some (previous.bind (pushed? pool)) else none

/-- The classes and names of the methods that the instructions call. -/
def calls (pool : Pool) (instructions : List Instruction) : List (String × String) :=
  instructions.filterMap fun i => do
    if !Opcode.isInvoke i.opcode then none
    let r ← pool.memberRef? (← i.poolIndex?)
    return (r.owner, r.name)

/-- The low byte of a key. -/
def byteKey (key : Int) : UInt8 := UInt8.ofNat (key % 256).toNat

/-- The low 16 bits of a key. -/
def charKey (key : Int) : UInt16 := UInt16.ofNat (key % 65536).toNat

/-- The decoding of a body that calls the given methods and uses the given keys. -/
def ruleOf? (called : List (String × String)) (keys : List Int) : Option Decoding :=
  let base64 := called.contains ("java/util/Base64$Decoder", "decode")
  let alphabet : Base64.Alphabet :=
    if called.contains ("java/util/Base64", "getUrlDecoder") then .urlSafe else .standard
  let chars := called.contains ("java/lang/String", "toCharArray")
    || called.contains ("java/lang/String", "charAt")
  let bytes := called.contains ("java/lang/String", "getBytes")
  if called.contains ("java/util/Base64", "getMimeDecoder") then none
  else match base64, keys, chars, bytes with
    | true, [], _, _ => some (.base64 alphabet)
    | true, [key], false, _ => some (.base64Xor alphabet (byteKey key))
    | false, [key], true, false => some (.charXor (charKey key))
    | false, [key], false, true => some (.byteXor (byteKey key))
    | _, _, _, _ => none

/-- The decoding that a row of instructions implements (`infer_decoding`). -/
def infer? (pool : Pool) (instructions : List Instruction) : Option Decoding :=
  if isIdentity instructions then some .identity
  else do ruleOf? (calls pool instructions) (← (keys pool instructions).mapM id)

/-- The decoding that a body implements. -/
def decodingOf? (pool : Pool) (body : Code) : Option Decoding :=
  match body.instructions with
  | .ok instructions => infer? pool instructions.toList
  | .error _ => none

end Helper

namespace ClassFile

/-- The helper that a method is (part of `find_helpers`). -/
def helperOf? (c : ClassFile) (m : Member) (position : Nat) : Option Helper := do
  let body ← m.body?
  if m.isStatic && !m.isNative && c.descriptorOf m == Helper.descriptor then
    some {
      method := position, name := c.nameOf m, label := c.labelOf m
      decoding := Helper.decodingOf? c.pool body }
  else none

/-- The helpers of a class, in declaration order (`find_helpers`). -/
def helpers (c : ClassFile) : List Helper :=
  c.methods.toList.zipIdx.filterMap fun (m, position) => c.helperOf? m position

end ClassFile

end Clarify
