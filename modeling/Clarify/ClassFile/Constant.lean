import Clarify.ClassFile.Reader

/-!
# Constants

The seventeen kinds of entry of a constant pool, and how each is written and read. Text is kept
in its encoded form and floating-point numbers as bits, so writing what was read gives back the
same bytes.
-/

namespace Clarify

/-- What a member reference refers to. -/
inductive RefKind where
  | field
  | method
  | interfaceMethod
deriving Repr, DecidableEq

/-- An entry of the constant pool. Indices point to other entries of the same pool. -/
inductive Constant where
  /-- Text in modified UTF-8. -/
  | utf8 (bytes : Bytes)
  | integer (bits : UInt32)
  | float (bits : UInt32)
  | long (bits : UInt64)
  | double (bits : UInt64)
  | classRef (name : UInt16)
  | string (value : UInt16)
  | memberRef (kind : RefKind) (owner pair : UInt16)
  | nameAndType (name descriptor : UInt16)
  | methodHandle (kind : UInt8) (reference : UInt16)
  | methodType (descriptor : UInt16)
  | dynamic (bootstrap pair : UInt16)
  | invokeDynamic (bootstrap pair : UInt16)
  | module (name : UInt16)
  | package (name : UInt16)
deriving Repr, DecidableEq

/-- The tag in front of a member reference. -/
def RefKind.tag : RefKind → UInt8
  | .field => 9
  | .method => 10
  | .interfaceMethod => 11

namespace Constant

/-- Whether the constant takes two slots of the pool. -/
def isWide : Constant → Bool
  | .long _ | .double _ => true
  | _ => false

/-- The number of slots that the constant takes. -/
def width (c : Constant) : Nat := if c.isWide then 2 else 1

/-- The constant as it stands in a class file (part of `ConstantPool::write`). The length of a text
is written in two bytes, so it is taken modulo 65536. -/
def write : Constant → Bytes
  | .utf8 bytes => 1 :: be16 (UInt16.ofNat bytes.length) ++ bytes
  | .integer bits => 3 :: be32 bits
  | .float bits => 4 :: be32 bits
  | .long bits => 5 :: be64 bits
  | .double bits => 6 :: be64 bits
  | .classRef name => 7 :: be16 name
  | .string value => 8 :: be16 value
  | .memberRef kind owner pair => kind.tag :: be16 owner ++ be16 pair
  | .nameAndType name descriptor => 12 :: be16 name ++ be16 descriptor
  | .methodHandle kind reference => 15 :: kind :: be16 reference
  | .methodType descriptor => 16 :: be16 descriptor
  | .dynamic bootstrap pair => 17 :: be16 bootstrap ++ be16 pair
  | .invokeDynamic bootstrap pair => 18 :: be16 bootstrap ++ be16 pair
  | .module name => 19 :: be16 name
  | .package name => 20 :: be16 name

open Reader in
/-- Reads the constant that goes into slot `index` (part of `ConstantPool::parse`). -/
def read (index : Nat) : Reader Constant := do
  let tag ← u8
  match tag with
  | 1 =>
    let length ← u16
    return .utf8 (← take length.toNat)
  | 3 => return .integer (← u32)
  | 4 => return .float (← u32)
  | 5 => return .long (← u64)
  | 6 => return .double (← u64)
  | 7 => return .classRef (← u16)
  | 8 => return .string (← u16)
  | 9 => return .memberRef .field (← u16) (← u16)
  | 10 => return .memberRef .method (← u16) (← u16)
  | 11 => return .memberRef .interfaceMethod (← u16) (← u16)
  | 12 => return .nameAndType (← u16) (← u16)
  | 15 => return .methodHandle (← u8) (← u16)
  | 16 => return .methodType (← u16)
  | 17 => return .dynamic (← u16) (← u16)
  | 18 => return .invokeDynamic (← u16) (← u16)
  | 19 => return .module (← u16)
  | 20 => return .package (← u16)
  | other => throw (.unknownTag other index)

end Constant

end Clarify
