import Clarify.Bytes.Hex

/-!
# What can be wrong with a class file

Each cause is a constructor that carries what its report shows; `FormatError.message` is the one
place that words it.
-/

namespace Clarify

/-- Why an index into the constant pool is refused. -/
inductive IndexFault where
  /-- The slot is outside the pool, is slot 0, or is the second slot of an 8-byte constant. -/
  | unusable
  | notUtf8
  | notClass
  | notNameAndType
  /-- The pool announces zero slots. -/
  | emptyPool
  /-- An 8-byte constant starts in the last slot. -/
  | noSecondSlot
  /-- A method handle has a kind other than 1 to 9. -/
  | handleKind
  /-- A method handle refers to something other than a member. -/
  | handleTarget
deriving Repr, DecidableEq

/-- The wording of an index fault. -/
def IndexFault.message : IndexFault → String
  | .unusable => "no usable constant at this index"
  | .notUtf8 => "expected a Utf8 constant"
  | .notClass => "expected a Class constant"
  | .notNameAndType => "expected a NameAndType constant"
  | .emptyPool => "constant pool count is zero"
  | .noSecondSlot => "8-byte constant occupies the last pool slot"
  | .handleKind => "method handle kind out of range"
  | .handleTarget => "method handle must reference a member"

/-- Why the body of a method is refused, apart from its instructions' opcodes and targets. -/
inductive CodeFault where
  /-- The code is empty or longer than 65535 bytes. -/
  | length (bytes : Nat)
  /-- The attribute goes on behind its last part. -/
  | unread (bytes : Nat)
  /-- A table switch at `offset` has its bounds the wrong way round. -/
  | emptyTable (offset : Nat)
  /-- A lookup switch at `offset` has a negative number of pairs. -/
  | negativePairs (offset : Nat)
deriving Repr, DecidableEq

/-- The wording of a code fault. -/
def CodeFault.message : CodeFault → String
  | .length n => s!"code length {n}"
  | .unread n => s!"{n} unread byte(s) in Code attribute"
  | .emptyTable pc => s!"tableswitch at {pc}: high < low"
  | .negativePairs pc => s!"lookupswitch at {pc}: npairs < 0"

/-- Why a byte string is no class file (`ParseError`). -/
inductive FormatError where
  | badMagic (found : UInt32)
  | unsupportedVersion (major minor : UInt16)
  /-- `needed` more bytes would have to follow what is left at `offset`. -/
  | truncated (offset needed : Nat)
  | unknownTag (tag : UInt8) (index : Nat)
  | badIndex (index : UInt16) (fault : IndexFault)
  | malformedCode (fault : CodeFault)
  | badOpcode (opcode : UInt8) (offset : Nat)
  | badBranch (offset : Nat) (target : Int)
  | trailingBytes (count : Nat)
deriving Repr, DecidableEq

/-- The wording of a format error. -/
def FormatError.message : FormatError → String
  | .badMagic found => s!"bad magic 0x{Hex.ofNatUpper 8 found.toNat}"
  | .unsupportedVersion major minor => s!"unsupported class file version {major}.{minor}"
  | .truncated offset needed =>
    s!"truncated input at offset {offset}: needed {needed} more byte(s)"
  | .unknownTag tag index => s!"unknown constant pool tag {tag} at index {index}"
  | .badIndex index fault => s!"constant pool index {index} is invalid: {fault.message}"
  | .malformedCode fault => s!"malformed Code attribute: {fault.message}"
  | .badOpcode opcode offset =>
    s!"invalid opcode 0x{Hex.ofNatUpper 2 opcode.toNat} at code offset {offset}"
  | .badBranch offset target =>
    s!"branch at code offset {offset} targets {target}, outside the method body"
  | .trailingBytes count => s!"{count} trailing byte(s) after the class structure"

end Clarify
