import Clarify.ClassFile.Reader

/-!
# Attributes

An attribute is a name and some bytes. Apart from method bodies, the bytes stay as they are.
-/

namespace Clarify

/-- A named byte string (`AttributeInfo`). -/
structure Attribute where
  /-- The index of the name's text. -/
  name : UInt16
  info : Bytes
deriving Repr, DecidableEq

namespace Attribute

/-- A name and bytes as they stand in a class file. -/
def writeParts (name : UInt16) (info : Bytes) : Bytes :=
  be16 name ++ be32 (UInt32.ofNat info.length) ++ info

/-- The attribute as it stands in a class file. -/
def write (a : Attribute) : Bytes := writeParts a.name a.info

/-- A counted row of attributes as it stands in a class file (`AttributeInfo::write_list`). -/
def writeAll (attributes : List Attribute) : Bytes :=
  be16 (UInt16.ofNat attributes.length) ++ attributes.flatMap write

open Reader in
/-- Reads an attribute (part of `AttributeInfo::parse_list`). -/
def read : Reader Attribute := do
  let name ← u16
  let length ← u32
  return { name, info := ← take length.toNat }

open Reader in
/-- Reads a counted row of attributes (`AttributeInfo::parse_list`). -/
def readAll : Reader (List Attribute) := do
  let count ← u16
  times count.toNat read

end Attribute

end Clarify
